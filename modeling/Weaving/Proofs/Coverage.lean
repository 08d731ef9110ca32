import Weaving.Proofs.Selections

/-!
Coverage. In an accepted registry every member has a variant for every relation, and what a relation may not
supply has a default. So nothing can go wrong with a call but the number of its arguments: there are too
many, or one is missing that has no default (`Registry.select_total_of_build`).
-/

namespace Weaving

/-- A member serves every relation, and the parameters that are hidden from some have defaults. -/
structure MemberEntry.Complete (member : MemberEntry) : Prop where
  covered : ∀ relation, ∃ variant ∈ member.variants, variant.relations.contains relation = true
  visible : ∀ param ∈ member.params, param.default = none →
    ∀ relation, param.relations.contains relation = true

namespace Resolution

variable {bodies : List String} {path : String}

/-! ## Entries of sound declarations -/

theorem remainingVariant_value {member : MemberDeclaration} {body : String} (own : member.body = some body)
    (bound : body ∈ bodies) {rest : RelationSet} (left : rest.isEmpty = false) :
    ∃ id, (remainingVariant bodies path member rest).value = some ⟨rest, id⟩ := by
  obtain ⟨id, found⟩ := exists_findBody? bound
  exact ⟨id, by simp [remainingVariant, own, left, resolveBody, found]⟩

/-- A relation is served by a declared variant or, if it is left over, by the member's own body. -/
theorem resolveVariants_covered {member : MemberDeclaration} (served : member.Served bodies)
    (relation : RelationClass) :
    ∃ variant ∈ (resolveVariants bodies path member).value, variant.relations.contains relation = true := by
  unfold resolveVariants
  simp only [Checked.value_bind, Checked.value_pure, addVariants_value served.bound, List.nil_append,
    List.mem_append, Option.mem_toList]
  by_cases declared : ∃ variant ∈ member.variants, variant.relations.contains relation = true
  · obtain ⟨variant, held, serves⟩ := declared
    exact ⟨variantEntry bodies variant, .inl (List.mem_map_of_mem held), serves⟩
  · have left : (servedBy .empty member.variants).complement.contains relation = true := by
      rw [RelationSet.contains_complement, Bool.not_eq_true', ← Bool.not_eq_true, contains_servedBy]
      simpa using declared
    have some_left : (servedBy .empty member.variants).complement.isEmpty = false := by
      rw [← Bool.not_eq_true, RelationSet.isEmpty_iff]
      intro none
      simp [none relation] at left
    obtain all | ⟨body, own, bound⟩ := served.covered
    · exact absurd (all relation) declared
    · obtain ⟨id, isRest⟩ := remainingVariant_value own bound some_left
      exact ⟨_, .inr isRest, left⟩

theorem resolveParam_visible {param : ParamDeclaration} (sound : param.Sound bodies)
    (bare : (resolveParam bodies path param).value.default = none) (relation : RelationClass) :
    (resolveParam bodies path param).value.relations.contains relation = true := by
  refine sound.visible ?_ relation
  simp only [resolveParam, Checked.value_bind, Checked.value_pure] at bare
  match default : param.default with
  | none => rfl
  | some (.const value) => simp [resolveDefault, default] at bare
  | some (.computed body) =>
    obtain ⟨id, found⟩ := exists_findBody? (sound.computed body default)
    simp [resolveDefault, resolveBody, default, found] at bare

theorem memberEntry_complete {types : List TypeEntry} {member : MemberDeclaration} {index : Nat}
    (sound : member.Sound bodies) : (memberEntry bodies types (member, index)).Complete where
  covered := resolveVariants_covered sound.served
  visible param held := by
    obtain ⟨path, params⟩ := exists_params_memberEntry bodies types (member, index)
    rw [params, List.mem_map] at held
    obtain ⟨declared, among, rfl⟩ := held
    exact resolveParam_visible (sound.params declared among)

/-- The members of a catalog without problems are complete. -/
theorem complete_of_catalog {declared : Declarations} (clean : (catalog declared bodies).problems = []) :
    ∀ member ∈ (catalog declared bodies).value.members, member.Complete := by
  have resolves := catalog_clean_iff.mp clean
  rw [catalog_eq] at clean ⊢
  simp only [Checked.problems_bind, Checked.problems_pure, List.append_nil, List.append_eq_nil_iff] at clean
  obtain ⟨-, -, membersClean, -, -⟩ := clean
  simp only [Checked.value_bind, Checked.value_pure]
  intro member held
  unfold collectMembers at membersClean held
  rw [(adds_member bodies _).value_eq membersClean, List.mem_map] at held
  obtain ⟨⟨source, index⟩, among, rfl⟩ := held
  exact memberEntry_complete (resolves.sound source (List.fst_mem_of_mem_zipIdx among))

end Resolution

/-! ## Calls -/

/-- There are no more arguments than parameters, and each parameter without an argument has a default. -/
def MemberEntry.Takes (member : MemberEntry) (args : List Value) : Prop :=
  args.length ≤ member.params.length ∧
    ∀ param ∈ member.params.drop args.length, param.default.isSome = true

instance (member : MemberEntry) (args : List Value) : Decidable (member.Takes args) :=
  inferInstanceAs (Decidable (_ ∧ _))

theorem Binding.ofArgument?_isSome_iff {relation : RelationClass} {param : Param}
    (visible : param.default = none → param.relations.contains relation = true) {arg : Option Value} :
    (ofArgument? relation param arg).isSome = true ↔ (arg = none → param.default.isSome = true) := by
  cases arg with
  | none => simp [ofArgument?]
  | some value =>
    cases default : param.default with
    | none => simp [ofArgument?, visible default]
    | some default => by_cases lets : param.relations.contains relation <;> simp [ofArgument?, lets, default]

/-- Parameters are bound just if those have defaults that are left over by the arguments. -/
theorem Binding.ofArguments?_isSome_iff {relation : RelationClass} {params : List Param}
    (visible : ∀ param ∈ params, param.default = none → param.relations.contains relation = true)
    {args : List Value} :
    (ofArguments? relation params args).isSome = true ↔
      ∀ param ∈ params.drop args.length, param.default.isSome = true := by
  induction params generalizing args with
  | nil => simp [ofArguments?]
  | cons param params ih =>
    obtain ⟨first, others⟩ := List.forall_mem_cons.mp visible
    have both : (ofArguments? relation (param :: params) args).isSome = true ↔
        (ofArgument? relation param args.head?).isSome = true ∧
          (ofArguments? relation params args.tail).isSome = true := by
      rw [ofArguments?]
      cases ofArgument? relation param args.head? <;>
        cases ofArguments? relation params args.tail <;> simp
    rw [both, ofArgument?_isSome_iff first, ih others]
    cases args <;> simp

namespace Catalog

variable {member : MemberEntry}

/-- Of variants that are apart and cover every relation exactly one serves a relation. -/
theorem existsUnique_variant (complete : member.Complete)
    (apart : member.variants.Pairwise Resolution.Apart) (relation : RelationClass) :
    ∃! index : Nat, ∃ variant : Variant, member.variants[index]? = some variant ∧
      variant.relations.contains relation = true := by
  obtain ⟨variant, held, serves⟩ := complete.covered relation
  obtain ⟨index, there⟩ := List.mem_iff_getElem?.mp held
  refine ⟨index, ⟨variant, there, serves⟩, ?_⟩
  rintro other ⟨second, found, alike⟩
  exact Resolution.index_eq_of_apart apart found there alike serves

/-- Arguments that a member takes are bound, all others are refused for their number. -/
theorem select_of_complete (catalog : Catalog) (complete : member.Complete) (relation : RelationClass)
    (args : List Value) :
    (member.Takes args → ∃ selection, catalog.select member relation args = .ok selection) ∧
      (¬ member.Takes args → catalog.select member relation args =
        .error (.argumentCount (catalog.memberPath member.id) member.params.length args.length)) := by
  have binds : (Binding.ofArguments? relation member.params args).isSome = true ↔
      ∀ param ∈ member.params.drop args.length, param.default.isSome = true :=
    Binding.ofArguments?_isSome_iff fun param held bare => complete.visible param held bare relation
  obtain ⟨variant, held, serves⟩ := complete.covered relation
  obtain ⟨⟨first, index⟩, found⟩ :
      ∃ chosen, member.variants.zipIdx.find? (·.1.relations.contains relation) = some chosen := by
    rw [← Option.isSome_iff_exists, List.find?_isSome]
    obtain ⟨index, there⟩ := List.mem_iff_getElem?.mp held
    exact ⟨(variant, index), List.mem_zipIdx_iff_getElem?.mpr there, serves⟩
  unfold select
  dsimp only
  rw [found]
  constructor
  · rintro ⟨few, defaults⟩
    obtain ⟨bindings, bound⟩ := Option.isSome_iff_exists.mp (binds.mpr defaults)
    rw [if_neg (Nat.not_lt.mpr few), bound]
    exact ⟨_, rfl⟩
  · intro refused
    by_cases many : member.params.length < args.length
    · rw [if_pos many]
    · have unbound : Binding.ofArguments? relation member.params args = none := by
        rw [← Option.not_isSome_iff_eq_none, binds]
        exact fun defaults => refused ⟨Nat.not_lt.mp many, defaults⟩
      rw [if_neg many, unbound]

end Catalog

/-- **Selection is total and exact.** In an accepted registry exactly one variant of a member serves a
relation. Arguments that the member takes are bound to its parameters under this variant, and with all
others the only fault is their number: an argument that is there is never without a binding. -/
theorem Registry.select_total_of_build {declared : Declarations} {bodies : List String} {registry : Registry}
    (accepted : Registry.build declared bodies = .ok registry) {member : MemberEntry}
    (held : member ∈ registry.members) (relation : RelationClass) (args : List Value) :
    (∃! index : Nat, ∃ variant : Variant, member.variants[index]? = some variant ∧
      variant.relations.contains relation = true) ∧
    (∀ param ∈ member.params, ∀ value,
      (Binding.ofArgument? relation param (some value)).isSome = true) ∧
    (member.Takes args → ∃ selection, registry.select member relation args = .ok selection ∧
      selection.Serves member relation args) ∧
    (¬ member.Takes args → registry.select member relation args =
      .error (.argumentCount (registry.memberPath member.id) member.params.length args.length)) := by
  have apart := apart_of_build accepted held
  obtain ⟨rfl, clean⟩ := eq_ofCatalog_of_build accepted
  have complete := Resolution.complete_of_catalog clean member held
  obtain ⟨taken, refused⟩ :=
    Catalog.select_of_complete (Resolution.catalog declared bodies).value complete relation args
  refine ⟨Catalog.existsUnique_variant complete apart relation, fun param among value => ?_, fun takes => ?_,
    refused⟩
  · exact (Binding.ofArgument?_isSome_iff fun bare => complete.visible param among bare relation).mpr nofun
  · obtain ⟨selection, selects⟩ := taken takes
    exact ⟨selection, selects, Catalog.serves_of_select apart selects⟩

/-- A till where only its own module may name a discount, and is served faster. -/
def till : Declarations where
  modules := [⟨"shop"⟩]
  types := [{ name := "Till", module := "shop" }]
  members :=
    [{ owner := "Till", name := "Pay", isStatic := true, body := some "pay"
       params :=
        [{ name := "amount", type := "int" },
          { name := "discount", type := "int", default := some (.const (.int 0)),
            relations := some (.only .sameModule) }]
       variants := [⟨.only .sameModule, "fast"⟩] }]

theorem Registry.select_total_of_till :
    ∃ registry member, Registry.build till ["pay", "fast"] = .ok registry ∧ member ∈ registry.members ∧
      (∃ selection, registry.select member .external [.int 5, .int 4] = .ok selection ∧
        selection.index = 1 ∧ selection.bindings = [.supplied (.int 5), .masked (.const (.int 0))] ∧
        selection.Serves member .external [.int 5, .int 4]) ∧
      registry.select member .external [] = .error (.argumentCount "Till.Pay" 2 0) := by
  have runs : (Registry.build till ["pay", "fast"]).toOption.map (fun registry =>
      registry.members.map fun member => decide (
        member.Takes [.int 5, .int 4] ∧ ¬ member.Takes [] ∧ registry.memberPath member.id = "Till.Pay" ∧
        member.params.length = 2 ∧
        (registry.select member .external [.int 5, .int 4]).toOption.map
            (fun selection => (selection.index, selection.bindings)) =
          some (1, [.supplied (.int 5), .masked (.const (.int 0))]))) = some [true] := by
    decide +kernel
  obtain ⟨registry, accepted, runs⟩ := exists_of_run runs
  obtain ⟨member, members, answers⟩ := List.map_eq_singleton_iff.mp runs
  obtain ⟨takes, misses, path, count, selected⟩ := of_decide_eq_true answers
  have held : member ∈ registry.members := by simp [members]
  obtain ⟨-, -, given, -⟩ := select_total_of_build accepted held .external [.int 5, .int 4]
  obtain ⟨-, -, -, refused⟩ := select_total_of_build accepted held .external []
  obtain ⟨selection, selects, serves⟩ := given takes
  rw [selects] at selected
  obtain ⟨index, bindings⟩ := Prod.mk.inj (Option.some.inj selected)
  have fault := refused misses
  rw [path, count] at fault
  exact ⟨registry, member, accepted, held, ⟨selection, selects, index, bindings, serves⟩, fault⟩

end Weaving
