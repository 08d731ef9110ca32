import Weaving.Catalog

/-!
Classifying calls. The relation of a call depends on the code that calls and on the type that declares
the target: first on whether their types are equal or one derives from the other, then on their modules.
Whether two objects are the same is decided by their numbers alone.
-/

namespace Weaving

/-- Code that calls: the member that it is part of, the type and the module where it is declared, and its
own receiver. Code outside the program has none of them. -/
structure Caller where
  member : Option MemberId := none
  type : Option TypeId := none
  module : Option ModuleId := none
  this : Option ObjectRef := none
  deriving DecidableEq, Repr

namespace Caller

/-- Code outside the program. -/
def external : Caller := {}

/-- Code of a module that is part of no type. -/
def inModule (module : ModuleId) : Caller := { module := some module }

/-- Whether a call on a receiver stays with the caller's own object. -/
def isSameInstance (caller : Caller) (receiver : Option ObjectRef) : Bool :=
  match caller.this, receiver with
  | some this, some receiver => this.id = receiver.id
  | _, _ => false

end Caller

namespace Catalog

variable (catalog : Catalog)

/-- Code of a type that is part of no member. -/
def callerInType (type : TypeId) : Caller :=
  { type := some type, module := (catalog.type? type).map (·.module) }

/-- Code of a member that runs for a receiver. -/
def callerInMember (member : MemberId) (this : Option ObjectRef) : Caller :=
  let type := (catalog.member? member).map (·.owner)
  { member := some member
    type
    module := (type.bind catalog.type?).map (·.module)
    this }

/-- Whether the caller is part of a member that has a receiver. -/
def isInstanceCode (caller : Caller) : Bool := (caller.member.bind catalog.member?).any (!·.isStatic)

/-- The relation of a call by modules alone. -/
def classifyModules (caller : Caller) (target : TypeId) : RelationClass :=
  if caller.module.isSome ∧ caller.module = (catalog.type? target).map (·.module) then .sameModule
  else .external

/-- The relation of a call to its target. -/
def classify (caller : Caller) (receiver : Option ObjectRef) (target : MemberEntry) : RelationClass :=
  match caller.type with
  | none => catalog.classifyModules caller target.owner
  | some type =>
    if type = target.owner then
      if catalog.isInstanceCode caller && !target.isStatic && caller.isSameInstance receiver then
        .sameInstance
      else .sameTypeDifferentInstance
    else if catalog.isProperSubtype type target.owner then .derivedType
    else if catalog.isProperSubtype target.owner type then .baseType
    else catalog.classifyModules caller target.owner

end Catalog

end Weaving
