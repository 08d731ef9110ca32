import Mathlib.Data.Fintype.Pigeonhole
import Mathlib.Logic.Relation
import Weaving.Catalog

/-!
Base types. The chain of a type is cut off after as many types as there are, which loses nothing: a type
that is found along the bases at all is found within that many steps (`mem_baseChain_iff`), since a longer
way would pass some type twice.
-/

namespace Weaving.Catalog

variable (catalog : Catalog)

/-- A type derives from itself and from everything that its base derives from. -/
def Derives : TypeId → TypeId → Prop :=
  Relation.ReflTransGen fun sub super => catalog.base? sub = some super

/-- The type that is some steps up. -/
def ancestor? (catalog : Catalog) : Nat → TypeId → Option TypeId
  | 0, type => some type
  | steps + 1, type => (catalog.base? type).bind (catalog.ancestor? steps)

theorem ancestor?_add (first second : Nat) (type : TypeId) :
    catalog.ancestor? (first + second) type =
      (catalog.ancestor? first type).bind (catalog.ancestor? second) := by
  induction first generalizing type with
  | zero => simp [ancestor?]
  | succ first ih =>
    rw [Nat.succ_add]
    simp only [ancestor?, Option.bind_assoc]
    exact congrArg _ (funext ih)

theorem derives_iff {sub super : TypeId} :
    catalog.Derives sub super ↔ ∃ steps, catalog.ancestor? steps sub = some super := by
  constructor
  · intro derives
    induction derives with
    | refl => exact ⟨0, rfl⟩
    | tail _ base ih =>
      obtain ⟨steps, reached⟩ := ih
      refine ⟨steps + 1, ?_⟩
      rw [ancestor?_add, reached]
      simp [ancestor?, base]
  · rintro ⟨steps, reached⟩
    induction steps generalizing sub with
    | zero =>
      obtain rfl : sub = super := by simpa [ancestor?] using reached
      exact Relation.ReflTransGen.refl
    | succ steps ih =>
      obtain ⟨base, isBase, above⟩ := Option.bind_eq_some_iff.mp reached
      exact Relation.ReflTransGen.head isBase (ih above)

theorem mem_chainFrom_iff {limit : Nat} {sub super : TypeId} :
    super ∈ catalog.chainFrom limit sub ↔ ∃ steps < limit, catalog.ancestor? steps sub = some super := by
  induction limit generalizing sub with
  | zero => simp [chainFrom]
  | succ limit ih =>
    rw [chainFrom, List.mem_cons]
    constructor
    · rintro (rfl | above)
      · exact ⟨0, by omega, rfl⟩
      · cases isBase : catalog.base? sub with
        | none => simp [isBase] at above
        | some base =>
          obtain ⟨steps, bound, reached⟩ := ih.mp (by simpa [isBase] using above)
          exact ⟨steps + 1, by omega, by simp [ancestor?, isBase, reached]⟩
    · rintro ⟨steps, bound, reached⟩
      cases steps with
      | zero => exact Or.inl (by simpa [ancestor?] using reached.symm)
      | succ steps =>
        obtain ⟨base, isBase, above⟩ := Option.bind_eq_some_iff.mp reached
        right
        rw [isBase]
        exact ih.mpr ⟨steps, by omega, above⟩

theorem index_lt_of_base? {sub super : TypeId} (isBase : catalog.base? sub = some super) :
    sub.index < catalog.types.length := by
  obtain ⟨entry, found, _⟩ := Option.bind_eq_some_iff.mp isBase
  exact (List.getElem?_eq_some_iff.mp found).1

/-- Every type on the way up to a type of the catalog is of the catalog too. -/
theorem exists_index_lt {sub super : TypeId} {steps passed : Nat}
    (held : super.index < catalog.types.length) (reached : catalog.ancestor? steps sub = some super)
    (before : passed ≤ steps) :
    ∃ between, catalog.ancestor? passed sub = some between ∧ between.index < catalog.types.length := by
  obtain ⟨rest, rfl⟩ := Nat.exists_eq_add_of_le before
  rw [ancestor?_add] at reached
  obtain ⟨between, found, above⟩ := Option.bind_eq_some_iff.mp reached
  refine ⟨between, found, ?_⟩
  cases rest with
  | zero =>
    obtain rfl : between = super := by simpa [ancestor?] using above
    exact held
  | succ rest =>
    obtain ⟨base, isBase, _⟩ := Option.bind_eq_some_iff.mp above
    exact catalog.index_lt_of_base? isBase

/-- A way up that is as long as there are types passes some type twice, so that a shorter one leads to
the same type. -/
theorem exists_shorter {sub super : TypeId} {steps : Nat} (held : super.index < catalog.types.length)
    (long : catalog.types.length ≤ steps) (reached : catalog.ancestor? steps sub = some super) :
    ∃ fewer < steps, catalog.ancestor? fewer sub = some super := by
  have onWay (passed : Fin (steps + 1)) :=
    catalog.exists_index_lt held reached (Nat.le_of_lt_succ passed.isLt)
  choose type found valid using onWay
  have crowded : Fintype.card (Fin catalog.types.length) < Fintype.card (Fin (steps + 1)) := by
    simp only [Fintype.card_fin]
    omega
  obtain ⟨first, second, distinct, same⟩ :=
    Fintype.exists_ne_map_eq_of_card_lt (fun passed => (⟨_, valid passed⟩ : Fin _)) crowded
  -- the way from the later of the two places on leads on from the earlier one as well
  wlog earlier : first < second generalizing first second
  · exact this second first distinct.symm same.symm (lt_of_le_of_ne (not_lt.mp earlier) distinct.symm)
  have twice : type first = type second := congrArg Id.mk (Fin.mk.inj same)
  refine ⟨first + (steps - second), by omega, ?_⟩
  rw [ancestor?_add, found, twice, ← found second, ← ancestor?_add]
  rw [← reached]
  congr 1
  omega

theorem exists_steps_lt {sub super : TypeId} {steps : Nat} (held : super.index < catalog.types.length)
    (reached : catalog.ancestor? steps sub = some super) :
    ∃ fewer < catalog.types.length, catalog.ancestor? fewer sub = some super := by
  induction steps using Nat.strong_induction_on with
  | _ steps ih =>
    rcases Nat.lt_or_ge steps catalog.types.length with short | long
    · exact ⟨steps, short, reached⟩
    · obtain ⟨fewer, less, reached⟩ := catalog.exists_shorter held long reached
      exact ih fewer less reached

/-- The chain of a type holds every type of the catalog that it derives from. -/
theorem mem_baseChain_iff {sub super : TypeId} (held : super.index < catalog.types.length) :
    super ∈ catalog.baseChain sub ↔ catalog.Derives sub super := by
  rw [baseChain, mem_chainFrom_iff, derives_iff]
  constructor
  · rintro ⟨steps, _, reached⟩
    exact ⟨steps, reached⟩
  · rintro ⟨steps, reached⟩
    exact catalog.exists_steps_lt held reached

/-- A type has an interface if it or a type above it declares the interface. -/
theorem hasCapability_iff {type : TypeId} {capability : String} :
    catalog.hasCapability type capability = true ↔
      ∃ super entry, catalog.Derives type super ∧ catalog.type? super = some entry ∧
        capability ∈ entry.capabilities := by
  simp only [hasCapability, List.any_eq_true, Option.any_eq_true, List.contains_iff_mem]
  constructor
  · rintro ⟨super, above, entry, found, declares⟩
    have held := (List.getElem?_eq_some_iff.mp found).1
    exact ⟨super, entry, (catalog.mem_baseChain_iff held).mp above, found, declares⟩
  · rintro ⟨super, entry, derives, found, declares⟩
    have held := (List.getElem?_eq_some_iff.mp found).1
    exact ⟨super, (catalog.mem_baseChain_iff held).mpr derives, entry, found, declares⟩

end Weaving.Catalog
