import Weaving.Proofs.Loops
import Weaving.Proofs.WellFormed

/-!
References. Once modules and types are collected without a problem, a name finds among the entries just
what it refers to among the declarations (`found_of_mirrors`), and the bases of entries are those that were
declared (`base?_eq_some_iff`). What is needed for there to be no problem is what well-formedness says of
modules and types.
-/

namespace Weaving

/-- What an entry says about a type, apart from its base. -/
structure TypeShown (index : Nat) (type : TypeDeclaration) (entry : TypeEntry) : Prop where
  id : entry.id = ⟨index⟩
  name : entry.name = type.name
  declaredName : entry.declaredName = type.qualifiedName
  scope : entry.scope = Resolution.scopeSegments type.scope
  capabilities : entry.capabilities = type.capabilities

namespace Resolution

/-! ## Modules -/

theorem adds_module : Checked.Adds addModule (fun declared => ⟨⟨declared.2⟩, declared.1.name⟩)
    (fun _ => True) fun held declared => held.name = declared.name where
  clean held item := by
    unfold addModule
    split <;> simp_all
  value held item clean := by
    unfold addModule at clean ⊢
    split
    · simp_all
    · rfl

theorem resolveModules_clean_iff (declared : List ModuleDeclaration) :
    (resolveModules declared).problems = [] ↔ (declared.map (·.name)).Nodup := by
  unfold resolveModules
  rw [adds_module.clean_iff (fun first second => first.name = second.name) fun _ _ _ _ => Iff.rfl]
  simp [nodup_map_iff]

/-- A module is found by name just if it is declared. -/
theorem findModule?_isSome_iff {declared : List ModuleDeclaration} {name : String}
    (clean : (resolveModules declared).problems = []) :
    (findModule? (resolveModules declared).value name).isSome = true ↔
      ∃ module ∈ declared, module.name = name := by
  unfold resolveModules at clean ⊢
  rw [adds_module.value_eq clean, findModule?, Option.isSome_map, List.find?_isSome]
  simp only [List.mem_map, decide_eq_true_eq]
  constructor
  · rintro ⟨_, ⟨⟨module, index⟩, held, rfl⟩, named⟩
    exact ⟨module, (List.mem_zipIdx' held).2 ▸ List.getElem_mem _, named⟩
  · rintro ⟨module, held, named⟩
    obtain ⟨index, found⟩ := List.mem_iff_getElem?.mp held
    exact ⟨_, ⟨(module, index), List.mem_zipIdx_iff_getElem?.mpr found, rfl⟩, named⟩

/-! ## Types -/

/-- The draft of the type at a position. -/
def draft (modules : List ModuleEntry) (declared : TypeDeclaration × Nat) : Draft :=
  ({ id := ⟨declared.2⟩
     name := declared.1.name
     scope := scopeSegments declared.1.scope
     declaredName := declared.1.qualifiedName
     module := (findModule? modules declared.1.module).getD ⟨modules.length⟩
     base := none
     capabilities := declared.1.capabilities
     visibility := declared.1.visibility
     members := [] }, declared.1.base)

theorem adds_type (modules : List ModuleEntry) : Checked.Adds (addType modules) (draft modules)
    (fun declared => (findModule? modules declared.module).isSome = true)
    fun held declared => held.1.declaredName = declared.qualifiedName where
  clean held item := by
    unfold addType resolveModule
    dsimp only
    split <;> simp_all
    exact fun _ => ‹_›
  value held item clean := by
    unfold addType at clean ⊢
    dsimp only at clean ⊢
    split
    · simp_all
    · rfl

end Resolution

open Resolution

variable {declared : Declarations} {types : List TypeEntry}

/-- Names find among some entries what they refer to. -/
def Declarations.Found (declared : Declarations) (types : List TypeEntry) : Prop :=
  ∀ name id, findType? types name = some id ↔ declared.Refers name id.index

/-- An entry is the only one with a simple name just if its declaration is. -/
theorem filter_name_eq_singleton_iff (mirrors : Mirrors TypeShown declared.types types) {name : String}
    {entry : TypeEntry} (held : entry ∈ types) :
    types.filter (·.name = name) = [entry] ↔
      (∃ type, declared.types[entry.id.index]? = some type ∧ type.name = name) ∧
        ∀ other type, declared.types[other]? = some type → type.name = name → other = entry.id.index := by
  have among (other : TypeEntry) :
      other ∈ types.filter (·.name = name) ↔ other ∈ types ∧ other.name = name := by simp
  obtain ⟨index, type, found, there, shown⟩ := mirrors.of_mem_entries held
  rw [shown.id]
  constructor
  · intro alone
    obtain ⟨-, named⟩ := (among entry).mp (alone ▸ List.mem_singleton_self entry)
    refine ⟨⟨type, found, shown.name.symm.trans named⟩, fun other second atOther alike => ?_⟩
    obtain ⟨twin, isTwin, twinShown⟩ := mirrors.shown other second atOther
    have same : twin ∈ [entry] :=
      alone ▸ (among twin).mpr ⟨List.mem_of_getElem? isTwin, twinShown.name.trans alike⟩
    obtain rfl := List.mem_singleton.mp same
    exact congrArg Id.index (twinShown.id.symm.trans shown.id)
  · rintro ⟨⟨declaration, isThere, named⟩, only⟩
    obtain rfl := Option.some.inj (found.symm.trans isThere)
    have nodup := (mirrors.numbered fun _ _ _ shown => shown.id).nodup
    have listed := (among entry).mpr ⟨held, shown.name.trans named⟩
    refine eq_singleton_of_nodup (nodup.filter _) listed fun other isOther => ?_
    obtain ⟨inTypes, alike⟩ := (among other).mp isOther
    obtain ⟨position, second, atPosition, atOther, otherShown⟩ := mirrors.of_mem_entries inTypes
    rw [only position second atPosition (otherShown.name.symm.trans alike)] at atOther
    exact Option.some.inj (atOther.symm.trans there)

/-- Names find what they refer to among entries that mirror the declarations. -/
theorem found_of_mirrors (mirrors : Mirrors TypeShown declared.types types)
    (distinct : (declared.types.map (·.qualifiedName)).Nodup) : declared.Found types := by
  intro name id
  unfold findType? Declarations.Refers
  cases qualified : types.find? (·.declaredName = name) with
  | some entry =>
    have named : entry.declaredName = name := by simpa using List.find?_some qualified
    obtain ⟨index, type, found, -, shown⟩ := mirrors.of_mem_entries (List.mem_of_find?_eq_some qualified)
    rw [shown.declaredName] at named
    simp only [Option.some.injEq, shown.id]
    constructor
    · rintro rfl
      exact Or.inl ⟨type, found, named⟩
    · rintro (⟨other, there, same⟩ | ⟨none, -⟩)
      · obtain rfl := index_eq_of_nodup distinct found there (named.trans same.symm)
        rfl
      · exact absurd named (none type (List.mem_of_getElem? found))
  | none =>
    have unqualified : ∀ type ∈ declared.types, type.qualifiedName ≠ name := by
      intro type held named
      obtain ⟨index, entry, -, there, shown⟩ := mirrors.of_mem held
      have other := List.find?_eq_none.mp qualified entry (List.mem_of_getElem? there)
      simp [shown.declaredName, named] at other
    dsimp only
    constructor
    · intro found
      split at found
      · rename_i entry alone
        cases found
        have held : entry ∈ types :=
          List.mem_of_mem_filter (alone ▸ List.mem_singleton_self entry)
        exact Or.inr ⟨unqualified, (filter_name_eq_singleton_iff mirrors held).mp alone⟩
      · cases found
    · rintro (⟨type, found, named⟩ | ⟨-, refers⟩)
      · exact absurd named (unqualified type (List.mem_of_getElem? found))
      · obtain ⟨type, found, -⟩ := refers.1
        obtain ⟨entry, there, shown⟩ := mirrors.shown id.index type found
        obtain rfl : entry.id = id := shown.id
        rw [(filter_name_eq_singleton_iff mirrors (List.mem_of_getElem? there)).mpr refers]

theorem Declarations.Found.isSome_iff (found : declared.Found types) {name : String} :
    (findType? types name).isSome = true ↔ ∃ position, declared.Refers name position := by
  rw [Option.isSome_iff_exists]
  constructor
  · rintro ⟨id, finds⟩
    exact ⟨id.index, (found name id).mp finds⟩
  · rintro ⟨position, refers⟩
    exact ⟨⟨position⟩, (found name ⟨position⟩).mpr refers⟩

/-! ## Bases -/

/-- What an entry says about a type, once its base has been looked up among some entries. -/
structure BaseShown (types : List TypeEntry) (index : Nat) (type : TypeDeclaration) (entry : TypeEntry) : Prop
    extends TypeShown index type entry where
  base : entry.base = type.base.bind (findType? types)

/-- The bases of entries are those that are declared. -/
theorem base?_eq_some_iff {catalog : Catalog} (found : declared.Found types)
    (based : Mirrors (BaseShown types) declared.types catalog.types) {sub super : TypeId} :
    catalog.base? sub = some super ↔ declared.Extends sub.index super.index := by
  have refers (base : String) : findType? types base = some super ↔ declared.Refers base super.index :=
    found base super
  simp only [Catalog.base?, Catalog.type?, Option.bind_eq_some_iff, Declarations.Extends, ← refers]
  constructor
  · rintro ⟨entry, found, isBase⟩
    obtain ⟨type, there, shown⟩ := based.source _ entry found
    obtain ⟨base, isNamed, refers⟩ := Option.bind_eq_some_iff.mp (shown.base.symm.trans isBase)
    exact ⟨type, base, there, isNamed, refers⟩
  · rintro ⟨type, base, there, isNamed, refers⟩
    obtain ⟨entry, found, shown⟩ := based.shown _ type there
    exact ⟨entry, found, shown.base.trans (Option.bind_eq_some_iff.mpr ⟨base, isNamed, refers⟩)⟩

/-- Loops of entries are loops of declarations. -/
theorem loops_iff {catalog : Catalog}
    (bases : ∀ sub super : TypeId, catalog.base? sub = some super ↔ declared.Extends sub.index super.index) :
    (∀ type, ¬ Relation.TransGen catalog.HasBase type type) ↔
      ∀ position, ¬ Relation.TransGen declared.Extends position position := by
  constructor
  · intro none position loop
    exact none ⟨position⟩ (loop.lift Id.mk fun sub super => (bases ⟨sub⟩ ⟨super⟩).mpr)
  · intro none type loop
    exact none type.index (loop.lift Id.index fun sub super => (bases sub super).mp)

namespace Resolution

variable {modules : List ModuleEntry}

/-- The entries of types before their bases are looked up. -/
def draftEntries (modules : List ModuleEntry) (declared : List TypeDeclaration) : List TypeEntry :=
  (declared.zipIdx.map (draft modules)).map (·.1)

theorem drafts_mirror : Mirrors (fun index type held => held = draft modules (type, index)) declared.types
    (declared.types.zipIdx.map (draft modules)) :=
  Mirrors.of_zipIdx fun _ _ _ => rfl

theorem draftEntries_mirror : Mirrors TypeShown declared.types (draftEntries modules declared.types) :=
  drafts_mirror.map fun _ _ _ _ shown => shown ▸ ⟨rfl, rfl, rfl, rfl, rfl⟩

theorem resolveBase_clean_iff {held : Draft} :
    (resolveBase types held).problems = [] ↔
      ∀ base, held.2 = some base → (findType? types base).isSome = true := by
  obtain ⟨entry, base⟩ := held
  cases base <;> simp [resolveBase, resolveType]

theorem resolveBase_mirror {index : Nat} {type : TypeDeclaration} :
    BaseShown types index type (resolveBase types (draft modules (type, index))).value := by
  unfold draft
  dsimp only
  cases base : type.base with
  | none => exact ⟨⟨rfl, rfl, rfl, rfl, rfl⟩, by simp [base, resolveBase]⟩
  | some base => exact ⟨⟨rfl, rfl, rfl, rfl, rfl⟩, by simp [base, resolveBase, resolveType]⟩

theorem resolveTypes_mirror
    (clean : (declared.types.foldlM (addType modules) []).problems = []) :
    Mirrors (BaseShown (draftEntries modules declared.types)) declared.types
      (resolveTypes modules declared.types).value := by
  unfold resolveTypes
  simp only [Checked.value_bind, Checked.value_pure, Checked.value_mapM, (adds_type modules).value_eq clean]
  exact drafts_mirror.map fun index type held _ shown => shown ▸ resolveBase_mirror

/-- What it takes for types to be resolved without a problem. -/
theorem resolveTypes_clean_iff :
    (resolveTypes modules declared.types).problems = [] ↔
      (∀ type ∈ declared.types, (findModule? modules type.module).isSome = true) ∧
      (declared.types.map (·.qualifiedName)).Nodup ∧
      (∀ type ∈ declared.types, ∀ base, type.base = some base → ∃ position, declared.Refers base position) ∧
      ∀ position, ¬ Relation.TransGen declared.Extends position position := by
  have collected := (adds_type modules).clean_iff
    (fun first second => first.qualifiedName = second.qualifiedName) (fun _ _ _ _ => Iff.rfl) declared.types
  rw [← nodup_map_iff] at collected
  unfold resolveTypes
  simp only [Checked.problems_bind, Checked.problems_pure, List.append_nil, List.append_eq_nil_iff, collected,
    and_assoc]
  refine and_congr_right fun known => and_congr_right fun distinct => ?_
  have clean := collected.mpr ⟨known, distinct⟩
  have found : declared.Found (draftEntries modules declared.types) :=
    found_of_mirrors draftEntries_mirror distinct
  refine and_congr ?_ ?_
  · rw [Checked.problems_mapM, (adds_type modules).value_eq clean]
    simp only [List.flatMap_eq_nil_iff, resolveBase_clean_iff]
    change (∀ held : Draft, held ∈ _ → ∀ base, held.2 = some base →
      (findType? (draftEntries modules declared.types) base).isSome = true) ↔ _
    simp only [found.isSome_iff]
    constructor
    · intro each type held
      obtain ⟨index, entry, -, there, rfl⟩ := drafts_mirror.of_mem held
      exact each _ (List.mem_of_getElem? there)
    · intro each held among
      obtain ⟨index, type, found, -, rfl⟩ := drafts_mirror.of_mem_entries among
      exact each type (List.mem_of_getElem? found)
  · let catalog : Catalog := ⟨[], (resolveTypes modules declared.types).value, [], [], [], []⟩
    have based : Mirrors (BaseShown _) declared.types catalog.types := resolveTypes_mirror clean
    have numbered : Numbered TypeEntry.id catalog.types := based.numbered fun _ _ _ shown => shown.id
    rw [← loops_iff fun _ _ => base?_eq_some_iff found based]
    exact checkLoops_clean_iff numbered

end Resolution

end Weaving
