import Weaving.Proofs.Acceptance
import Weaving.Proofs.Bounds

/-!
The hierarchy of types. Chains of bases are cut off after as many types as there are, but in an accepted
registry every chain has ended by then, since no type comes back to itself (`ancestor?_length_eq_none`). So a
chain is its type followed by the whole chain of the base, and what is read off chains is what the declared
bases say: subtypes are ordered, interfaces are handed down, and a member is looked for in one type after
the other (`Registry.lineage_of_build`).
-/

namespace Weaving

/-- Some types lead from one, each to its declared base, up to one without a base. -/
inductive Declarations.Ascends (declared : Declarations) : TypeId → List TypeId → Prop
  | top {type : TypeId} {source : TypeDeclaration} (found : declared.types[type.index]? = some source)
      (top : source.base = none) : Ascends declared type [type]
  | up {type base : TypeId} {chain : List TypeId} (isBase : declared.Extends type.index base.index)
      (above : Ascends declared base chain) : Ascends declared type (type :: chain)

namespace Catalog

variable {catalog : Catalog} {type sub super : TypeId}

/-! ## Chains -/

/-- A chain that has ended stays the same with room for more. -/
theorem chainFrom_succ_of_ended {limit : Nat} (ended : catalog.ancestor? limit type = none) :
    catalog.chainFrom (limit + 1) type = catalog.chainFrom limit type := by
  induction limit generalizing type with
  | zero => cases ended
  | succ limit ih =>
    rw [chainFrom, chainFrom]
    cases isBase : catalog.base? type with
    | none => rfl
    | some base =>
      rw [ancestor?, isBase] at ended
      exact congrArg (type :: ·) (ih ended)

/-- From a type that is there the bases lead to types that are there. -/
theorem Closed.index_lt_of_derives (closed : catalog.Closed) (inside : sub.index < catalog.types.length)
    (derives : catalog.Derives sub super) : super.index < catalog.types.length := by
  induction derives with
  | refl => exact inside
  | tail _ isBase _ => exact closed.base?_index_lt isBase

section Unlooped

variable (unlooped : ∀ type, ¬ Relation.TransGen catalog.HasBase type type)
include unlooped

theorem eq_of_derives (up : catalog.Derives sub super) (down : catalog.Derives super sub) : sub = super := by
  rcases Relation.reflTransGen_iff_eq_or_transGen.mp up with same | above
  · exact same.symm
  · exact absurd (above.trans_left down) (unlooped sub)

/-- Nothing is as far above a type as there are types: on the way some type would be passed twice. -/
theorem ancestor?_length_eq_none (closed : catalog.Closed) (inside : type.index < catalog.types.length) :
    catalog.ancestor? catalog.types.length type = none := by
  rw [Option.eq_none_iff_forall_ne_some]
  intro super reached
  have held := closed.index_lt_of_derives inside (catalog.derives_iff.mpr ⟨_, reached⟩)
  obtain ⟨fewer, less, early⟩ := catalog.exists_shorter held le_rfl reached
  obtain ⟨more, far⟩ := Nat.exists_eq_add_of_lt less
  rw [far, Nat.add_assoc, ancestor?_add, early, Option.bind_some, ancestor?] at reached
  obtain ⟨base, isBase, back⟩ := Option.bind_eq_some_iff.mp reached
  exact unlooped super (.head' isBase (catalog.derives_iff.mpr ⟨more, back⟩))

/-- The chain of a type goes on with the whole chain of its base. -/
theorem baseChain_eq (closed : catalog.Closed) (inside : type.index < catalog.types.length) :
    catalog.baseChain type = type :: match catalog.base? type with
      | none => []
      | some base => catalog.baseChain base := by
  have ended := ancestor?_length_eq_none unlooped closed inside
  obtain ⟨limit, room⟩ := Nat.exists_eq_succ_of_ne_zero (Nat.ne_zero_of_lt inside)
  unfold baseChain
  rw [room] at ended ⊢
  conv_lhs => rw [chainFrom]
  cases isBase : catalog.base? type with
  | none => rfl
  | some base =>
    rw [ancestor?, isBase] at ended
    exact congrArg (type :: ·) (chainFrom_succ_of_ended ended).symm

theorem nodup_chainFrom (limit : Nat) (type : TypeId) : (catalog.chainFrom limit type).Nodup := by
  induction limit generalizing type with
  | zero => exact .nil
  | succ limit ih =>
    rw [chainFrom]
    cases isBase : catalog.base? type with
    | none => exact List.nodup_singleton type
    | some base =>
      refine List.nodup_cons.mpr ⟨fun again => ?_, ih base⟩
      obtain ⟨steps, -, back⟩ := catalog.mem_chainFrom_iff.mp again
      exact unlooped type (.head' isBase (catalog.derives_iff.mpr ⟨steps, back⟩))

/-- What an object of a type answers to without a member of its own is what one of the base does. -/
theorem dispatch?_eq (closed : catalog.Closed) (inside : type.index < catalog.types.length) (name : String) :
    catalog.dispatch? type name = (catalog.findMemberIn? type name).or
      ((catalog.base? type).bind fun base => catalog.dispatch? base name) := by
  unfold dispatch?
  rw [baseChain_eq unlooped closed inside, List.findSome?_cons]
  cases catalog.findMemberIn? type name with
  | some member => rfl
  | none => cases catalog.base? type <;> rfl

end Unlooped

theorem Closed.isSubtype_iff (closed : catalog.Closed) (inside : sub.index < catalog.types.length) :
    catalog.isSubtype sub super = true ↔ catalog.Derives sub super := by
  rw [isSubtype, List.contains_iff_mem]
  constructor
  · intro above
    exact (catalog.mem_baseChain_iff (closed.chainFrom_index_lt _ inside super above)).mp above
  · intro derives
    exact (catalog.mem_baseChain_iff (closed.index_lt_of_derives inside derives)).mpr derives

/-- What a type above declares, a type has too. -/
theorem hasCapability_of_derives (derives : catalog.Derives sub super) {capability : String}
    (has : catalog.hasCapability super capability = true) : catalog.hasCapability sub capability = true := by
  obtain ⟨declarer, entry, above, found, declares⟩ := catalog.hasCapability_iff.mp has
  exact catalog.hasCapability_iff.mpr ⟨declarer, entry, derives.trans above, found, declares⟩

/-! ## Lineages -/

/-- What the chain of a type holds, and what it is used for, is what the declared bases say. -/
structure Lineage (catalog : Catalog) (declared : Declarations) (type : TypeId) : Prop where
  ascends : declared.Ascends type (catalog.baseChain type)
  nodup : (catalog.baseChain type).Nodup
  chain : catalog.baseChain type = type :: match catalog.base? type with
    | none => []
    | some base => catalog.baseChain base
  derives : ∀ super, catalog.isSubtype type super = true ↔ declared.Derives type.index super.index
  refl : catalog.isSubtype type type = true
  trans : ∀ super top, catalog.isSubtype type super = true → catalog.isSubtype super top = true →
    catalog.isSubtype type top = true
  antisymm : ∀ super, catalog.isSubtype type super = true → catalog.isSubtype super type = true →
    type = super
  capability : ∀ super, catalog.isSubtype type super = true → ∀ capability,
    catalog.hasCapability super capability = true → catalog.hasCapability type capability = true
  dispatch : ∀ name, catalog.dispatch? type name = (catalog.findMemberIn? type name).or
    ((catalog.base? type).bind fun base => catalog.dispatch? base name)

end Catalog

variable {declared : Declarations} {bodies : List String} {catalog : Catalog}

/-- A chain that has ended goes along the declared bases to a type that declares none. -/
theorem Represents.ascends_chainFrom (represents : Represents declared catalog)
    (resolves : declared.Resolves bodies) (closed : catalog.Closed) {limit : Nat} {type : TypeId}
    (inside : type.index < catalog.types.length) (ended : catalog.ancestor? limit type = none) :
    declared.Ascends type (catalog.chainFrom limit type) := by
  induction limit generalizing type with
  | zero => cases ended
  | succ limit ih =>
    rw [Catalog.ancestor?] at ended
    rw [Catalog.chainFrom]
    cases isBase : catalog.base? type with
    | some base =>
      rw [isBase] at ended
      exact .up ((represents.bases type base).mp isBase) (ih (closed.base?_index_lt isBase) ended)
    | none =>
      obtain ⟨source, found, -⟩ := represents.types.source _ _ (List.getElem?_eq_getElem inside)
      refine .top found (Option.eq_none_iff_forall_ne_some.mpr fun base named => ?_)
      obtain ⟨position, refers⟩ := resolves.bases source (List.mem_of_getElem? found) base named
      have known := (represents.bases type ⟨position⟩).mpr ⟨source, base, found, named, refers⟩
      rw [isBase] at known
      cases known

/-- **Chains are never cut short.** In an accepted registry the chain of a declared type goes up to a type
without a base and passes no type twice; it is the type followed by the whole chain of its base. So the
subtypes of a type are those that derive from it, which is a partial order, they have all its interfaces, and
an object answers with the member of its type or else as an object of the base does. -/
theorem Registry.lineage_of_build {registry : Registry}
    (accepted : Registry.build declared bodies = .ok registry) {type : TypeId}
    (inside : type.index < declared.types.length) : registry.Lineage declared type := by
  have closed := (closed_of_build accepted).toClosed
  obtain ⟨rfl, clean⟩ := eq_ofCatalog_of_build accepted
  have represents := Resolution.represents_catalog clean
  have resolves := Resolution.catalog_clean_iff.mp clean
  have unlooped := (loops_iff represents.bases).mpr resolves.loops
  obtain ⟨entry, there, -⟩ := represents.types.shown _ _ (List.getElem?_eq_getElem inside)
  have held := (List.getElem?_eq_some_iff.mp there).1
  have derives (super : TypeId) : Catalog.isSubtype _ type super = true ↔ Catalog.Derives _ type super :=
    closed.isSubtype_iff held
  have above (super : TypeId) (up : Catalog.isSubtype _ type super = true) :=
    closed.index_lt_of_derives held ((derives super).mp up)
  refine {
    ascends := represents.ascends_chainFrom resolves closed held
      (Catalog.ancestor?_length_eq_none unlooped closed held)
    nodup := Catalog.nodup_chainFrom unlooped _ type
    chain := Catalog.baseChain_eq unlooped closed held
    derives := fun super => (derives super).trans represents.derives_iff
    refl := (derives type).mpr .refl
    trans := fun super top up further => ?_
    antisymm := fun super up down => ?_
    capability := fun super up _ => Catalog.hasCapability_of_derives ((derives super).mp up)
    dispatch := Catalog.dispatch?_eq unlooped closed held }
  · have further := (closed.isSubtype_iff (above super up)).mp further
    exact (derives top).mpr (((derives super).mp up).trans further)
  · have down := (closed.isSubtype_iff (above super up)).mp down
    exact Catalog.eq_of_derives unlooped ((derives super).mp up) down

/-- An oak is a tree and a tree is a plant; only a tree grows in a way of its own. -/
def garden : Declarations where
  modules := [⟨"park"⟩]
  types :=
    [{ name := "Oak", module := "park", base := some "Tree" },
      { name := "Plant", module := "park", capabilities := ["Living"] },
      { name := "Tree", module := "park", base := some "Plant" }]
  members :=
    [{ owner := "Plant", name := "Grow", body := some "grow" },
      { owner := "Tree", name := "Grow", body := some "grow" },
      { owner := "Plant", name := "Water", body := some "water" }]

/-- An oak grows like a tree and lives like a plant. -/
theorem Registry.lineage_of_garden :
    ∃ registry, Registry.build garden ["grow", "water"] = .ok registry ∧
      garden.Ascends ⟨0⟩ [⟨0⟩, ⟨2⟩, ⟨1⟩] ∧ garden.Derives 0 1 ∧
      registry.hasCapability ⟨0⟩ "Living" = true ∧ registry.isSubtype ⟨1⟩ ⟨0⟩ = false ∧
      registry.dispatch? ⟨0⟩ "Grow" = some ⟨1⟩ ∧
      registry.dispatch? ⟨0⟩ "Water" = registry.dispatch? ⟨2⟩ "Water" := by
  have runs : (Registry.build garden ["grow", "water"]).toOption.map (fun registry => decide (
      registry.baseChain ⟨0⟩ = [⟨0⟩, ⟨2⟩, ⟨1⟩] ∧ registry.base? ⟨0⟩ = some ⟨2⟩ ∧
      registry.isSubtype ⟨0⟩ ⟨1⟩ = true ∧ registry.hasCapability ⟨1⟩ "Living" = true ∧
      registry.findMemberIn? ⟨0⟩ "Grow" = none ∧ registry.findMemberIn? ⟨0⟩ "Water" = none ∧
      registry.dispatch? ⟨2⟩ "Grow" = some ⟨1⟩)) = some true := by
    decide +kernel
  obtain ⟨registry, accepted, answers⟩ := exists_of_run runs
  obtain ⟨chain, isBase, up, living, bare, dry, grows⟩ := of_decide_eq_true answers
  have lineage := lineage_of_build accepted (show (⟨0⟩ : TypeId).index < garden.types.length by decide)
  refine ⟨registry, accepted, chain ▸ lineage.ascends, (lineage.derives ⟨1⟩).mp up,
    lineage.capability ⟨1⟩ up _ living, ?_, ?_, ?_⟩
  · rw [← Bool.not_eq_true]
    intro down
    cases lineage.antisymm ⟨1⟩ up down
  · rw [lineage.dispatch, bare, isBase]
    exact grows
  · rw [lineage.dispatch, dry, isBase]
    rfl

end Weaving
