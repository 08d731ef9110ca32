import Weaving.Catalog
import Weaving.Fault

/-!
Selecting variants and binding arguments. The relation of a call selects the variant that serves it, and
decides for each parameter whether the argument is let through or hidden behind the default.
-/

namespace Weaving

/-- Where the value of a parameter comes from. -/
inductive Binding where
  | supplied (value : Value)
  /-- The call had an argument that it may not supply. -/
  | masked (default : Default)
  | omitted (default : Default)
  deriving DecidableEq

/-- The variant for a call, with a binding for each parameter. -/
structure Selection where
  index : Nat
  variant : Variant
  bindings : List Binding
  deriving DecidableEq

namespace Binding

/-- The binding of a parameter, unless a default is needed that it does not have. -/
def ofArgument? (relation : RelationClass) (param : Param) : Option Value → Option Binding
  | some value =>
    if param.relations.contains relation then some (.supplied value) else param.default.map .masked
  | none => param.default.map .omitted

/-- The bindings of parameters, in order; arguments may be missing at the end. -/
def ofArguments? (relation : RelationClass) : List Param → List Value → Option (List Binding)
  | [], _ => some []
  | param :: params, args => do
    let binding ← ofArgument? relation param args.head?
    let bindings ← ofArguments? relation params args.tail
    some (binding :: bindings)

end Binding

/-- The variant and the bindings for a call in some relation. -/
def Catalog.select (catalog : Catalog) (member : MemberEntry) (relation : RelationClass)
    (args : List Value) : Except Fault Selection :=
  let path := catalog.memberPath member.id
  let wrongCount : Fault := .argumentCount path member.params.length args.length
  if member.params.length < args.length then .error wrongCount
  else
    match member.variants.zipIdx.find? (·.1.relations.contains relation) with
    | none => .error (.raised ("no variant of " ++ path ++ " serves " ++ relation.name))
    | some (variant, index) =>
      match Binding.ofArguments? relation member.params args with
      | some bindings => .ok ⟨index, variant, bindings⟩
      | none => .error wrongCount

end Weaving
