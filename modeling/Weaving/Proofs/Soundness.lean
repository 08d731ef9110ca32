import Weaving.Proofs.Collecting
import Weaving.Proofs.Rosters
import Weaving.Proofs.WellFormed

/-!
Sound members. A member is resolved without a problem just if its declaration is sound by itself: if hidden
parameters have defaults, every relation is served once, and join points have names of their own. The
variants of a member that is resolved have no relation in common, its own body among them
(`resolveVariants_disjoint`).
-/

namespace Weaving

theorem RelationSet.isFull_iff {set : RelationSet} :
    set.isFull = true ↔ ∀ relation, set.contains relation = true := by
  rw [isFull, decide_eq_true_eq]
  constructor
  · rintro rfl relation
    exact contains_all relation
  · intro full
    exact ext_contains fun relation => (full relation).trans (contains_all relation).symm

theorem RelationSet.isEmpty_iff {set : RelationSet} :
    set.isEmpty = true ↔ ∀ relation, set.contains relation = false := by
  rw [isEmpty, decide_eq_true_eq]
  constructor
  · rintro rfl relation
    exact contains_empty relation
  · intro none
    exact ext_contains fun relation => (none relation).trans (contains_empty relation).symm

namespace Resolution

variable {bodies : List String} {path user : String}

/-! ## Bodies and parameters -/

theorem findBody?_isSome_iff {name : String} : (findBody? bodies name).isSome = true ↔ name ∈ bodies := by
  simp [findBody?, List.findIdx?_isSome]

theorem exists_findBody? {name : String} (bound : name ∈ bodies) : ∃ id, findBody? bodies name = some id :=
  Option.isSome_iff_exists.mp (findBody?_isSome_iff.mpr bound)

@[simp]
theorem resolveBody_clean_iff {name : String} :
    (resolveBody bodies name user).problems = [] ↔ name ∈ bodies := by
  rw [resolveBody, Checked.problems_found_eq_nil_iff, findBody?_isSome_iff]

theorem resolveDefault_clean_iff {param : String} {declared : Option DefaultDeclaration} :
    (resolveDefault bodies path param declared).problems = [] ↔
      ∀ body, declared = some (.computed body) → body ∈ bodies := by
  match declared with
  | none => simp [resolveDefault]
  | some (.const value) => simp [resolveDefault]
  | some (.computed body) => simp [resolveDefault]

theorem resolveParam_clean_iff {param : ParamDeclaration} :
    (resolveParam bodies path param).problems = [] ↔ param.Sound bodies := by
  have visible : ((param.relations.getD .all).isFull || param.default.isSome) = true ↔
      (param.default = none → ∀ relation, (param.relations.getD .all).contains relation = true) := by
    rw [Bool.or_eq_true, RelationSet.isFull_iff]
    cases param.default <;> simp
  unfold resolveParam
  simp only [Checked.problems_bind, Checked.problems_pure, List.append_nil, List.append_eq_nil_iff,
    resolveDefault_clean_iff, Checked.problems_require_eq_nil_iff, visible]
  constructor
  · rintro ⟨computed, visible⟩
    exact ⟨visible, computed⟩
  · exact fun sound => ⟨sound.computed, sound.visible⟩

/-! ## Variants -/

/-- Two variants of an entry serve no relation in common. -/
def Apart (first second : Variant) : Prop :=
  ∀ relation, ¬ (first.relations.contains relation = true ∧ second.relations.contains relation = true)

/-- The variant of a declaration whose body is bound. -/
def variantEntry (bodies : List String) (declared : VariantDeclaration) : Variant :=
  ⟨declared.relations, (findBody? bodies declared.body).getD ⟨0⟩⟩

/-- A set serves no relation that a variant serves. -/
def Spares (served : RelationSet) (declared : VariantDeclaration) : Prop :=
  ∀ relation, ¬ (served.contains relation = true ∧ declared.relations.contains relation = true)

theorem toList_inter_head?_eq_none_iff {served relations : RelationSet} :
    (served.inter relations).toList.head? = none ↔
      ∀ relation, ¬ (served.contains relation = true ∧ relations.contains relation = true) := by
  rw [List.head?_eq_none_iff, List.eq_nil_iff_forall_not_mem]
  simp only [RelationSet.mem_toList, RelationSet.contains_inter, Bool.and_eq_true]

theorem addVariant_clean_iff {held : List Variant} {served : RelationSet} {declared : VariantDeclaration} :
    (addVariant bodies path (held, served) declared).problems = [] ↔
      Spares served declared ∧ declared.body ∈ bodies := by
  unfold addVariant Spares
  rw [← toList_inter_head?_eq_none_iff]
  dsimp only
  cases (served.inter declared.relations).toList.head? <;> simp

theorem addVariant_value {held : List Variant} {served : RelationSet} {declared : VariantDeclaration}
    (bound : declared.body ∈ bodies) :
    (addVariant bodies path (held, served) declared).value =
      (held ++ [variantEntry bodies declared], served.union declared.relations) := by
  obtain ⟨body, found⟩ := exists_findBody? bound
  unfold addVariant
  dsimp only
  cases (served.inter declared.relations).toList.head? <;> simp [resolveBody, variantEntry, found]

/-- The relations that variants serve, besides some others. -/
def servedBy (served : RelationSet) (variants : List VariantDeclaration) : RelationSet :=
  variants.foldl (fun served variant => served.union variant.relations) served

theorem contains_servedBy {served : RelationSet} {variants : List VariantDeclaration}
    {relation : RelationClass} :
    (servedBy served variants).contains relation = true ↔
      served.contains relation = true ∨ ∃ variant ∈ variants, variant.relations.contains relation = true := by
  induction variants generalizing served with
  | nil => simp [servedBy]
  | cons variant variants ih =>
    change (servedBy (served.union variant.relations) variants).contains relation = true ↔ _
    rw [ih]
    simp [or_assoc]

theorem spares_union {served : RelationSet} {first second : VariantDeclaration} :
    Spares (served.union first.relations) second ↔ Spares served second ∧ first.Disjoint second := by
  simp only [Spares, VariantDeclaration.Disjoint, RelationSet.contains_union, Bool.or_eq_true, or_and_right,
    not_or, forall_and]

theorem addVariants_clean_iff {declared : List VariantDeclaration} {held : List Variant}
    {served : RelationSet} :
    (declared.foldlM (addVariant bodies path) (held, served)).problems = [] ↔
      (∀ variant ∈ declared, Spares served variant) ∧ (∀ variant ∈ declared, variant.body ∈ bodies) ∧
        declared.Pairwise VariantDeclaration.Disjoint := by
  induction declared generalizing held served with
  | nil => simp
  | cons variant declared ih =>
    simp only [List.foldlM_cons, Checked.problems_bind, List.append_eq_nil_iff, addVariant_clean_iff,
      List.forall_mem_cons, List.pairwise_cons]
    constructor
    · rintro ⟨⟨spares, bound⟩, rest⟩
      rw [addVariant_value bound, ih] at rest
      obtain ⟨others, bounds, pairwise⟩ := rest
      have apart := fun second among => spares_union.mp (others second among)
      exact ⟨⟨spares, fun second among => (apart second among).1⟩, ⟨bound, bounds⟩,
        fun second among => (apart second among).2, pairwise⟩
    · rintro ⟨⟨spares, others⟩, ⟨bound, bounds⟩, apart, pairwise⟩
      refine ⟨⟨spares, bound⟩, ?_⟩
      rw [addVariant_value bound, ih]
      exact ⟨fun second among => spares_union.mpr ⟨others second among, apart second among⟩, bounds, pairwise⟩

theorem addVariants_value {declared : List VariantDeclaration} {held : List Variant} {served : RelationSet}
    (bound : ∀ variant ∈ declared, variant.body ∈ bodies) :
    (declared.foldlM (addVariant bodies path) (held, served)).value =
      (held ++ declared.map (variantEntry bodies), servedBy served declared) := by
  induction declared generalizing held served with
  | nil => simp [servedBy]
  | cons variant declared ih =>
    rw [List.foldlM_cons, Checked.value_bind, addVariant_value (bound variant List.mem_cons_self),
      ih fun second among => bound second (List.mem_cons_of_mem _ among)]
    simp [servedBy]

/-- The relations that are left over are served by the member's own body, or there are none. -/
theorem remainingVariant_clean_iff {member : MemberDeclaration} {rest : RelationSet} :
    (remainingVariant bodies path member rest).problems = [] ↔
      ((∀ relation, rest.contains relation = false) ∨ ∃ body, member.body = some body ∧ body ∈ bodies) ∧
        (member.body ≠ none ∨ member.variants ≠ []) := by
  rw [← RelationSet.isEmpty_iff]
  unfold remainingVariant
  cases body : member.body with
  | some body => cases rest.isEmpty <;> simp
  | none => cases empty : member.variants <;> simp

theorem relations_of_remainingVariant {member : MemberDeclaration} {rest : RelationSet} {variant : Variant}
    (found : (remainingVariant bodies path member rest).value = some variant) : variant.relations = rest := by
  unfold remainingVariant at found
  split at found
  · split at found
    · cases found
    · simp only [Checked.value_bind, Checked.value_pure, Option.map_eq_some_iff] at found
      obtain ⟨body, -, rfl⟩ := found
      rfl
  · split at found <;> cases found

theorem resolveVariants_clean_iff {member : MemberDeclaration} :
    (resolveVariants bodies path member).problems = [] ↔ member.Served bodies := by
  unfold resolveVariants
  have nothing (variant : VariantDeclaration) : Spares .empty variant := by simp [Spares]
  simp only [Checked.problems_bind, Checked.problems_pure, List.append_nil, List.append_eq_nil_iff,
    addVariants_clean_iff, remainingVariant_clean_iff]
  have covered (bound : ∀ variant ∈ member.variants, variant.body ∈ bodies) :
      (∀ relation, ((member.variants.foldlM (addVariant bodies path) ([], .empty)).value.2.complement).contains
        relation = false) ↔
        ∀ relation, ∃ variant ∈ member.variants, variant.relations.contains relation = true := by
    rw [addVariants_value bound]
    simp [contains_servedBy]
  constructor
  · rintro ⟨⟨-, bound, disjoint⟩, served, present⟩
    exact ⟨disjoint, bound, served.imp_left (covered bound).mp, present⟩
  · intro served
    exact ⟨⟨fun variant _ => nothing variant, served.bound, served.disjoint⟩,
      served.covered.imp_left (covered served.bound).mpr, served.present⟩

/-- The variants of a member have no relation in common, its own body among them. -/
theorem resolveVariants_disjoint {member : MemberDeclaration}
    (clean : (resolveVariants bodies path member).problems = []) :
    (resolveVariants bodies path member).value.Pairwise Apart := by
  have served := resolveVariants_clean_iff.mp clean
  unfold resolveVariants
  simp only [Checked.value_bind, Checked.value_pure, addVariants_value served.bound, List.nil_append]
  refine List.pairwise_append.mpr ⟨List.pairwise_map.mpr served.disjoint, ?_, ?_⟩
  · cases (remainingVariant bodies path member _).value <;> simp
  · intro first among second isRest relation
    obtain ⟨variant, held, rfl⟩ := List.mem_map.mp among
    rw [relations_of_remainingVariant (Option.mem_toList.mp isRest), RelationSet.contains_complement,
      Bool.not_eq_true', ← Bool.not_eq_true, contains_servedBy]
    exact fun both => both.2 (Or.inr ⟨variant, held, both.1⟩)

/-! ## Join points -/

theorem adds_point (path : String) : Checked.Adds (addPoint path)
    (fun declared => ⟨declared.1.name, declared.1.params⟩) (fun _ => True)
    fun held declared => held.name = declared.name where
  clean held item := by
    unfold addPoint
    split <;> simp_all
  value held item clean := by
    unfold addPoint at clean ⊢
    split
    · simp_all
    · rfl

theorem addPoints_clean_iff {declared : List PointDeclaration} :
    (declared.foldlM (addPoint path) []).problems = [] ↔ (declared.map (·.name)).Nodup := by
  rw [(adds_point path).clean_iff (fun first second => first.name = second.name) fun _ _ _ _ => Iff.rfl]
  simp [nodup_map_iff]

/-! ## Members -/

/-- The entry of the member at a position. -/
def memberEntry (bodies : List String) (types : List TypeEntry) (declared : MemberDeclaration × Nat) :
    MemberEntry :=
  let owner := (findType? types declared.1.owner).getD ⟨0⟩
  (resolveMember bodies (draftPath types owner declared.1) ⟨declared.2⟩ owner declared.1).value

@[simp]
theorem owner_memberEntry (bodies : List String) (types : List TypeEntry) (declared : MemberDeclaration × Nat) :
    (memberEntry bodies types declared).owner = (findType? types declared.1.owner).getD ⟨0⟩ := rfl

/-- The parameters of an entry are those of the declaration, each by itself. -/
theorem exists_params_memberEntry (bodies : List String) (types : List TypeEntry)
    (declared : MemberDeclaration × Nat) :
    ∃ path, (memberEntry bodies types declared).params =
      declared.1.params.map fun param => (resolveParam bodies path param).value :=
  ⟨_, Checked.value_mapM _ _⟩

/-- An entry is of the same type as a declaration, with the same name, kind and number of parameters. -/
def ClashesWith (types : List TypeEntry) (held : MemberEntry) (declared : MemberDeclaration) : Prop :=
  findType? types declared.owner = some held.owner ∧ held.name = declared.name ∧
    held.kind = declared.kind ∧ held.params.length = declared.params.length

theorem isDeclared_iff {types : List TypeEntry} {held : List MemberEntry} {owner : TypeId}
    {declared : MemberDeclaration} (found : findType? types declared.owner = some owner) :
    isDeclared held owner declared = true ↔ ∃ other ∈ held, ClashesWith types other declared := by
  simp only [isDeclared, resembles, List.any_eq_true, Bool.and_eq_true, decide_eq_true_eq, ClashesWith, found,
    Option.some.injEq, and_assoc, eq_comm (a := owner)]

theorem parts_clean_iff {declared : MemberDeclaration} :
    ((declared.params.mapM (resolveParam bodies path)).problems = [] ∧
      (resolveVariants bodies path declared).problems = [] ∧
      (declared.points.foldlM (addPoint path) []).problems = []) ↔ declared.Sound bodies := by
  rw [Checked.problems_mapM, List.flatMap_eq_nil_iff, resolveVariants_clean_iff, addPoints_clean_iff]
  simp only [resolveParam_clean_iff]
  exact ⟨fun ⟨params, served, points⟩ => ⟨params, served, points⟩,
    fun sound => ⟨sound.params, sound.served, sound.points⟩⟩

theorem adds_member (bodies : List String) (types : List TypeEntry) :
    Checked.Adds (collectMember bodies types) (memberEntry bodies types)
      (fun declared => (findType? types declared.owner).isSome = true ∧ declared.Sound bodies)
      (ClashesWith types) where
  clean held item := by
    unfold collectMember resolveType resolveMember
    cases found : findType? types item.owner with
    | none => simp
    | some owner =>
      have free : (∀ other ∈ held, ¬ ClashesWith types other item) ↔ isDeclared held owner item = false := by
        rw [← Bool.not_eq_true, isDeclared_iff found]
        simp
      rw [free]
      simp only [Checked.problems_bind, Checked.found, Option.isSome_some, if_true,
        List.nil_append, true_and]
      cases isDeclared held owner item with
      | true => simp
      | false =>
        simp only [Bool.false_eq_true, if_false, Checked.problems_bind, Checked.problems_pure,
          List.append_nil, List.append_eq_nil_iff, and_true]
        exact parts_clean_iff
  value held item clean := by
    unfold collectMember resolveType resolveMember at clean ⊢
    unfold memberEntry
    cases found : findType? types item.owner with
    | none => simp [found] at clean
    | some owner =>
      simp only [found, Checked.problems_bind, Checked.value_bind, Checked.value_found] at clean ⊢
      split
      · simp_all
      · rfl

end Resolution

end Weaving
