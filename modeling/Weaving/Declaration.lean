import Weaving.Modifier
import Weaving.Script

/-!
Declarations: what a program consists of before its names are resolved. Modules, types, members,
aspects and pointcuts refer to each other by name, in any order.
-/

namespace Weaving

/-- A name behind the name of what holds it. -/
def qualify (holder name : String) : String := if holder.isEmpty then name else holder ++ "." ++ name

structure ModuleDeclaration where
  name : String
  deriving DecidableEq, Repr

structure TypeDeclaration where
  name : String
  /-- Names between dots, or nothing for the global namespace. -/
  scope : String := ""
  module : String
  base : Option String := none
  capabilities : List String := []
  visibility : Visibility := .everywhere
  deriving DecidableEq, Repr

/-- The name behind the namespace as it is written. -/
def TypeDeclaration.qualifiedName (type : TypeDeclaration) : String := qualify type.scope type.name

/-- The default of a parameter. -/
inductive DefaultDeclaration where
  /-- The result of a body that runs when the argument is bound. -/
  | computed (body : String)
  | const (value : Value)
  deriving DecidableEq, Repr

structure ParamDeclaration where
  name : String
  type : String
  default : Option DefaultDeclaration := none
  /-- The relations that may supply the argument; all of them if nothing is said. -/
  relations : Option RelationSet := none
  deriving DecidableEq, Repr

/-- A body for some relations. -/
structure VariantDeclaration where
  relations : RelationSet
  body : String
  deriving DecidableEq, Repr

/-- A join point inside a body. -/
structure PointDeclaration where
  name : String
  params : List String := []
  deriving DecidableEq, Repr

structure MemberDeclaration where
  owner : String
  kind : MemberKind := .function
  name : String
  params : List ParamDeclaration := []
  returns : String := "void"
  visibility : Visibility := .everywhere
  isStatic : Bool := false
  /-- Code inside sees the relation that its caller runs under. -/
  passthru : Bool := false
  /-- The body for the relations that no variant serves. -/
  body : Option String := none
  variants : List VariantDeclaration := []
  points : List PointDeclaration := []
  deriving DecidableEq, Repr

/-- The name behind the owner as it is written. -/
def MemberDeclaration.qualifiedName (member : MemberDeclaration) : String :=
  member.owner ++ "." ++ member.name

/-- A holder of pointcuts, possibly limited to the types of some namespace. -/
structure AspectDeclaration where
  name : String
  module : String
  scope : Option String := none
  deriving DecidableEq, Repr

inductive OwnerDeclaration where
  | aspect (name : String)
  | type (name : String)
  deriving DecidableEq, Repr

/-- Advice and the pattern of the join points where it runs. Only advice with a return type may return
a value. -/
structure PointcutDeclaration where
  advice : AdviceKind
  pattern : String
  returns : Option String := none
  body : String
  owner : OwnerDeclaration
  deriving DecidableEq, Repr

/-- Everything that is declared, apart from bodies. -/
structure Declarations where
  modules : List ModuleDeclaration := []
  types : List TypeDeclaration := []
  members : List MemberDeclaration := []
  aspects : List AspectDeclaration := []
  pointcuts : List PointcutDeclaration := []
  deriving DecidableEq, Repr

/-- A whole program as it stands in a file. Scripts are in the order of their names, each name once. -/
structure Model extends Declarations where
  scripts : List (String × Script) := []

end Weaving
