import Weaving.Binding
import Weaving.Proofs.Entries

/-!
Selections. Of the variants of a member in an accepted registry at most one serves a relation, so that what
is selected for a call is the only variant that could be; and each parameter is bound to what the same
relation lets through (`Catalog.serves_of_select`).
-/

namespace Weaving

variable {catalog : Catalog} {relation : RelationClass} {params : List Param} {args : List Value}

/-! ## Bindings -/

/-- What a parameter is bound to where there is such an argument, or none: the argument if the relation may
supply it, and the default otherwise. -/
def Binding.Fits (relation : RelationClass) (param : Param) : Option Value → Binding → Prop
  | some value, .supplied other => param.relations.contains relation = true ∧ other = value
  | some _, .masked default => param.relations.contains relation = false ∧ param.default = some default
  | none, .omitted default => param.default = some default
  | _, _ => False

theorem Binding.fits_of_ofArgument? {param : Param} {arg : Option Value} {binding : Binding}
    (binds : ofArgument? relation param arg = some binding) : Fits relation param arg binding := by
  cases arg with
  | none =>
    obtain ⟨default, isDefault, rfl⟩ := Option.map_eq_some_iff.mp binds
    exact isDefault
  | some value =>
    unfold ofArgument? at binds
    cases may : param.relations.contains relation with
    | true =>
      rw [may] at binds
      cases binds
      exact ⟨may, rfl⟩
    | false =>
      rw [may] at binds
      obtain ⟨default, isDefault, rfl⟩ := Option.map_eq_some_iff.mp binds
      exact ⟨may, isDefault⟩

/-- Every parameter has a binding that fits the argument in its place. -/
structure Masks (relation : RelationClass) (params : List Param) (args : List Value)
    (bindings : List Binding) : Prop where
  length : bindings.length = params.length
  fits : ∀ (index : Nat) (param : Param) (binding : Binding), params[index]? = some param →
    bindings[index]? = some binding → binding.Fits relation param args[index]?

theorem masks_of_ofArguments? {bindings : List Binding}
    (binds : Binding.ofArguments? relation params args = some bindings) :
    Masks relation params args bindings := by
  induction params generalizing args bindings with
  | nil =>
    cases binds
    exact ⟨rfl, fun _ _ _ held => nomatch held⟩
  | cons param params ih =>
    rw [Binding.ofArguments?, Option.bind_eq_bind, Option.bind_eq_some_iff] at binds
    obtain ⟨binding, first, binds⟩ := binds
    rw [Option.bind_eq_bind, Option.bind_eq_some_iff] at binds
    obtain ⟨rest, others, whole⟩ := binds
    cases whole
    refine ⟨congrArg (· + 1) (ih others).length, fun index other held isParam isHeld => ?_⟩
    cases index with
    | zero =>
      cases isParam
      cases isHeld
      rw [← List.head?_eq_getElem?]
      exact Binding.fits_of_ofArgument? first
    | succ index =>
      rw [← List.getElem?_tail]
      exact (ih others).fits index other held isParam isHeld

/-! ## Variants -/

/-- The variant of a selection is the only one of a member that serves the relation, and the relation
decides what is bound as well. -/
structure Selection.Serves (selection : Selection) (member : MemberEntry) (relation : RelationClass)
    (args : List Value) : Prop where
  held : member.variants[selection.index]? = some selection.variant
  serves : selection.variant.relations.contains relation = true
  only : ∀ (index : Nat) (variant : Variant), member.variants[index]? = some variant →
    variant.relations.contains relation = true → index = selection.index
  masks : Masks relation member.params args selection.bindings

theorem Resolution.index_eq_of_apart {variants : List Variant} (apart : variants.Pairwise Apart) {i j : Nat}
    {first second : Variant} (one : variants[i]? = some first) (other : variants[j]? = some second)
    (serves : first.relations.contains relation = true)
    (alike : second.relations.contains relation = true) : i = j := by
  obtain ⟨hi, rfl⟩ := List.getElem?_eq_some_iff.mp one
  obtain ⟨hj, rfl⟩ := List.getElem?_eq_some_iff.mp other
  rcases Nat.lt_trichotomy i j with before | same | behind
  · exact absurd ⟨serves, alike⟩ (List.pairwise_iff_getElem.mp apart i j hi hj before relation)
  · exact same
  · exact absurd ⟨alike, serves⟩ (List.pairwise_iff_getElem.mp apart j i hj hi behind relation)

/-- What is selected for a call is a variant of the member, with a binding for each parameter. -/
theorem Catalog.masks_of_select {member : MemberEntry} {selection : Selection}
    (selects : catalog.select member relation args = .ok selection) :
    selection.variant ∈ member.variants ∧ Masks relation member.params args selection.bindings := by
  unfold select at selects
  dsimp only at selects
  split at selects
  · cases selects
  split at selects
  · cases selects
  rename_i first
  split at selects
  · rename_i binds
    cases selects
    have held := List.mem_zipIdx_iff_getElem?.mp (List.mem_of_find?_eq_some first)
    exact ⟨List.mem_of_getElem? held, masks_of_ofArguments? binds⟩
  · cases selects

/-- What is selected serves the relation, and nothing else would. -/
theorem Catalog.serves_of_select {member : MemberEntry} (apart : member.variants.Pairwise Resolution.Apart)
    {selection : Selection} (selects : catalog.select member relation args = .ok selection) :
    selection.Serves member relation args := by
  unfold select at selects
  dsimp only at selects
  split at selects
  · cases selects
  · split at selects
    · cases selects
    · rename_i variant index first
      split at selects
      · rename_i bindings binds
        cases selects
        have held : member.variants[index]? = some variant :=
          List.mem_zipIdx_iff_getElem?.mp (List.mem_of_find?_eq_some first)
        have serves := List.find?_some first
        exact ⟨held, serves, fun _ _ other alike =>
          Resolution.index_eq_of_apart apart other held alike serves, masks_of_ofArguments? binds⟩
      · cases selects

/-- Members of accepted registries have no two variants for one relation. -/
theorem Registry.apart_of_build {declared : Declarations} {bodies : List String} {registry : Registry}
    (accepted : Registry.build declared bodies = .ok registry) {member : MemberEntry}
    (held : member ∈ registry.members) : member.variants.Pairwise Resolution.Apart := by
  obtain ⟨rfl, clean⟩ := eq_ofCatalog_of_build accepted
  obtain ⟨_, _, _, _, shown⟩ := (Resolution.represents_catalog clean).members.of_mem_entries held
  exact shown.variants

end Weaving
