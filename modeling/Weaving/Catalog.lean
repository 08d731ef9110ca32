import Weaving.Declaration
import Weaving.Pattern

/-!
The catalog of a program: every declaration with its names resolved to identifiers, and the questions
that can be asked of it by identifier, by name and along the base types.
-/

namespace Weaving

structure ModuleEntry where
  id : ModuleId
  name : String
  deriving DecidableEq

structure TypeEntry where
  id : TypeId
  name : String
  scope : List String
  /-- The qualified name as it was declared, which finds the type. -/
  declaredName : String
  module : ModuleId
  base : Option TypeId
  /-- The interfaces that the type declares itself. -/
  capabilities : List String
  visibility : Visibility
  /-- The members of the type in declaration order. -/
  members : List MemberId
  deriving DecidableEq

/-- The name behind the segments of the namespace. -/
def TypeEntry.qualifiedName (type : TypeEntry) : String :=
  qualify (".".intercalate type.scope) type.name

/-- What stands in for a hidden or missing argument. -/
inductive Default where
  | const (value : Value)
  | computed (body : BodyId)
  deriving DecidableEq

structure Param where
  name : String
  type : String
  default : Option Default
  relations : RelationSet
  deriving DecidableEq

structure Variant where
  relations : RelationSet
  body : BodyId
  deriving DecidableEq

structure PointEntry where
  name : String
  params : List String
  deriving DecidableEq

structure MemberEntry where
  id : MemberId
  owner : TypeId
  kind : MemberKind
  name : String
  params : List Param
  returns : String
  visibility : Visibility
  isStatic : Bool
  passthru : Bool
  variants : List Variant
  points : List PointEntry
  deriving DecidableEq

/-- The position of the explicit join point with a name. -/
def MemberEntry.pointIndex? (member : MemberEntry) (name : String) : Option Nat :=
  member.points.findIdx? (·.name = name)

structure AspectEntry where
  id : AspectId
  name : String
  module : ModuleId
  scope : Option Pattern.Namespace
  deriving DecidableEq

inductive AdviceOwner where
  | aspect (id : AspectId)
  | type (id : TypeId)
  deriving DecidableEq

structure PointcutEntry where
  id : PointcutId
  advice : AdviceKind
  pattern : Pattern
  source : String
  returns : Option String
  body : BodyId
  owner : AdviceOwner
  deriving DecidableEq

/-- The resolved declarations of a program. -/
structure Catalog where
  modules : List ModuleEntry
  types : List TypeEntry
  members : List MemberEntry
  aspects : List AspectEntry
  pointcuts : List PointcutEntry
  bodyNames : List String

/-- A module by name. -/
def findModule? (modules : List ModuleEntry) (name : String) : Option ModuleId :=
  (modules.find? (·.name = name)).map (·.id)

/-- A type by its declared qualified name, or else by its simple name if only one type has it. -/
def findType? (types : List TypeEntry) (name : String) : Option TypeId :=
  match types.find? (·.declaredName = name) with
  | some type => some type.id
  | none =>
    match types.filter (·.name = name) with
    | [only] => some only.id
    | _ => none

namespace Catalog

variable (catalog : Catalog)

/-! ## By identifier -/

def module? (id : ModuleId) : Option ModuleEntry := catalog.modules[id.index]?

def type? (id : TypeId) : Option TypeEntry := catalog.types[id.index]?

def member? (id : MemberId) : Option MemberEntry := catalog.members[id.index]?

def aspect? (id : AspectId) : Option AspectEntry := catalog.aspects[id.index]?

def pointcut? (id : PointcutId) : Option PointcutEntry := catalog.pointcuts[id.index]?

def bodyName (id : BodyId) : String := catalog.bodyNames[id.index]?.getD "?"

/-! ## By name -/

def findModule? (name : String) : Option ModuleId := Weaving.findModule? catalog.modules name

def findType? (name : String) : Option TypeId := Weaving.findType? catalog.types name

/-- The first member with a name that a type declares itself. -/
def findMemberIn? (type : TypeId) (name : String) : Option MemberId := do
  let entry ← catalog.type? type
  entry.members.find? fun id => (catalog.member? id).any (·.name = name)

/-- A member by the path of its type and its name; the last dot divides them. -/
def findMember? (path : String) : Option MemberId := do
  let (type, name) ← Text.splitLast? '.' path.toList
  let type ← catalog.findType? (String.ofList type)
  catalog.findMemberIn? type (String.ofList name)

/-! ## Along base types -/

def base? (type : TypeId) : Option TypeId := (catalog.type? type).bind (·.base)

/-- At most `limit` types, from a type along its bases. -/
def chainFrom (catalog : Catalog) : Nat → TypeId → List TypeId
  | 0, _ => []
  | limit + 1, type =>
    type :: match catalog.base? type with
      | none => []
      | some base => chainFrom catalog limit base

/-- A type and its bases, most derived first. There are no more of them than types. -/
def baseChain (type : TypeId) : List TypeId := catalog.chainFrom catalog.types.length type

/-- Whether a type is another one or derives from it. -/
def isSubtype (sub super : TypeId) : Bool := (catalog.baseChain sub).contains super

def isProperSubtype (sub super : TypeId) : Bool := sub ≠ super && catalog.isSubtype sub super

/-- The member with a name that an object of a type answers to: its own or the nearest inherited one. -/
def dispatch? (type : TypeId) (name : String) : Option MemberId :=
  (catalog.baseChain type).findSome? fun type => catalog.findMemberIn? type name

/-- Whether a type or one of its bases declares an interface. -/
def hasCapability (type : TypeId) (capability : String) : Bool :=
  (catalog.baseChain type).any fun type =>
    (catalog.type? type).any fun entry => entry.capabilities.contains capability

/-- Whether a value of one named type may stand where another is expected: the same name, `object`, a
base type, or an interface. -/
def isAssignable (given expected : String) : Bool :=
  given = expected || expected = "object" ||
    match catalog.findType? given, catalog.findType? expected with
    | some sub, some super => catalog.isSubtype sub super
    | some sub, none => catalog.hasCapability sub expected
    | none, _ => false

/-! ## Names for people -/

def typeName (type : TypeId) : String := ((catalog.type? type).map (·.qualifiedName)).getD ""

/-- The path of a member. -/
def memberPath (id : MemberId) : String :=
  match catalog.member? id with
  | some member => catalog.typeName member.owner ++ "." ++ member.name
  | none => "member" ++ id.label

end Catalog

end Weaving
