import Weaving.Proofs.Invocation
import Weaving.Script.Meaning

/-!
Masked arguments are kept out. An argument that the relation of a call may not supply has no influence on
the call at all: two calls that differ only in such arguments have the same result, and leave the same chain,
output and object numbers behind (`invoke_eq_of_visible_eq`). Everything that runs inside the call starts
from the bindings, so it is enough that the bindings do not depend on what is hidden.
-/

namespace Weaving

/-- The lists are equally long, and they agree where the relation may supply the parameter. -/
structure SameVisible (relation : RelationClass) (params : List Param) (first second : List Value) :
    Prop where
  length : first.length = second.length
  visible : ∀ (index : Nat) (param : Param), params[index]? = some param →
    param.relations.contains relation = true → first[index]? = second[index]?

variable {relation : RelationClass} {param : Param} {params : List Param} {first second : List Value}

theorem SameVisible.tail (same : SameVisible relation (param :: params) first second) :
    SameVisible relation params first.tail second.tail where
  length := by simp [same.length]
  visible index param found visible := by
    simpa using same.visible (index + 1) param (by simpa using found) visible

namespace Binding

/-- What is bound to a parameter depends on a hidden argument only through its presence. -/
theorem ofArgument?_congr (same : SameVisible relation (param :: params) first second) :
    ofArgument? relation param first.head? = ofArgument? relation param second.head? := by
  have visible := same.visible 0 param rfl
  have length := same.length
  match first, second with
  | [], [] => rfl
  | [], _ :: _ => simp at length
  | _ :: _, [] => simp at length
  | value :: _, other :: _ =>
    cases may : param.relations.contains relation with
    | true =>
      have equal : value = other := by simpa using visible may
      rw [List.head?_cons, List.head?_cons, equal]
    | false => simp [ofArgument?, may]

theorem ofArguments?_congr (same : SameVisible relation params first second) :
    ofArguments? relation params first = ofArguments? relation params second := by
  induction params generalizing first second with
  | nil => rfl
  | cons param params ih =>
    rw [ofArguments?, ofArguments?, ofArgument?_congr same, ih same.tail]

end Binding

theorem Catalog.select_congr (catalog : Catalog) {member : MemberEntry}
    (same : SameVisible relation member.params first second) :
    catalog.select member relation first = catalog.select member relation second := by
  rw [select, select, same.length, Binding.ofArguments?_congr same]

namespace Weaver

variable (weaver : Weaver) {caller : Caller} {target : MemberId} {receiver : Option ObjectRef}

/-- The code of a member sees its arguments through the bindings only. -/
theorem runMember_congr (calling : Calling) {member : MemberEntry}
    (same : SameVisible relation member.params first second) :
    weaver.runMember calling member relation ⟨target, receiver, first⟩ =
      weaver.runMember calling member relation ⟨target, receiver, second⟩ := by
  unfold runMember
  dsimp only
  rw [weaver.registry.select_congr same]

/-- **Masked arguments do not interfere.** -/
theorem invoke_eq_of_visible_eq
    (same : ∀ member, weaver.registry.member? target = some member →
      SameVisible (weaver.registry.classify caller receiver member) member.params first second)
    (machine : Machine) :
    (weaver.invoke caller ⟨target, receiver, first⟩).run.run machine =
      (weaver.invoke caller ⟨target, receiver, second⟩).run.run machine := by
  rw [run_invoke, run_invoke]
  cases weaver.settings.maxDepth - machine.chain.depth with
  | zero =>
    rw [run_invokeWithin_zero, run_invokeWithin_zero]
    rfl
  | succ room =>
    -- whether a call is admitted does not depend on its arguments
    have admits : weaver.admitted ⟨target, receiver, first⟩ machine.chain.cancelled =
        weaver.admitted ⟨target, receiver, second⟩ machine.chain.cancelled := rfl
    rw [run_invokeWithin_succ, run_invokeWithin_succ, admits]
    cases admitted : weaver.admitted ⟨target, receiver, second⟩ machine.chain.cancelled with
    | error fault => rfl
    | ok member =>
      have visible := same member (weaver.member?_of_admitted admitted)
      dsimp only
      rw [run_activate, run_activate]
      dsimp only
      rw [weaver.runMember_congr _ visible]

/-- A vault that anybody may open with a key, but only its own code without a sound. -/
def vault : Weaver where
  registry :=
    { modules := [⟨⟨0⟩, "bank"⟩]
      types := [⟨⟨0⟩, "Vault", [], "Vault", ⟨0⟩, none, [], .everywhere, [⟨0⟩]⟩]
      members :=
        [{ id := ⟨0⟩, owner := ⟨0⟩, kind := .function, name := "Open"
           params := [⟨"key", "string", none, .all⟩,
             ⟨"silent", "bool", some (.computed ⟨1⟩), .only .sameTypeDifferentInstance⟩]
           returns := "bool", visibility := .everywhere, isStatic := true, passthru := false
           variants := [⟨.all, ⟨0⟩⟩], points := [] }]
      aspects := []
      pointcuts := []
      bodyNames := ["open", "silent"]
      plans := [] }
  bodies := [Script.body [.emit "{0}", .give (.arg 1)], Script.body [.give (.literal (.bool false))]]
  settings := {}

/-- A stranger who asks for silence is not told from one who does not, and neither gets it. -/
theorem invoke_vault_eq :
    (∀ member, vault.registry.member? ⟨0⟩ = some member →
      SameVisible (vault.registry.classify .external none member) member.params
        [.text "k", .bool true] [.text "k", .bool false]) ∧
    (vault.invoke .external ⟨⟨0⟩, none, [.text "k", .bool true]⟩).run.run { chain := vault.chain } =
      (vault.invoke .external ⟨⟨0⟩, none, [.text "k", .bool false]⟩).run.run { chain := vault.chain } ∧
    ((vault.invoke .external ⟨⟨0⟩, none, [.text "k", .bool true]⟩).run.run
      { chain := vault.chain }).1 = .ok (.bool false) := by
  have same : ∀ member, vault.registry.member? ⟨0⟩ = some member →
      SameVisible (vault.registry.classify .external none member) member.params
        [.text "k", .bool true] [.text "k", .bool false] := by
    intro member found
    cases found
    refine ⟨rfl, fun index param held may => ?_⟩
    match index with
    | 0 => rfl
    | 1 =>
      cases held
      revert may
      decide
    | index + 2 => cases held
  exact ⟨same, vault.invoke_eq_of_visible_eq same _, rfl⟩

end Weaver

end Weaving
