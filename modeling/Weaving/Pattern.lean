import Weaving.Modifier
import Weaving.Pattern.Namespace

/-!
Pointcut patterns. A pattern filters declaring types and members, or the explicit join points of
members, by name, modifiers, parameter types and the interfaces of the type.
-/

namespace Weaving

/-- A pattern. Lists of visibilities and kinds that are empty accept every one. -/
structure Pattern where
  visibilities : List Visibility
  kinds : List MemberKind
  /-- Accepts explicit join points instead of the entry and exit of members. -/
  explicit : Bool
  scope : Option Pattern.Namespace
  /-- The filter over type names; without one the owner of the pointcut decides. -/
  typeName : Option Pattern.Segment
  member : Pattern.Segment
  /-- The name of the join point in an explicit pattern. -/
  point : Option String
  params : Pattern.Params
  /-- Interfaces that the declaring type or one of its bases must declare. -/
  interfaces : List String
  deriving DecidableEq, Repr

end Weaving
