import Weaving.Proofs.Ancestry
import Weaving.Proofs.Collecting

/-!
Loops of bases. A loop is reported at the first declared of its types, so that no problem is left behind
just if no type comes back to itself along the bases (`checkLoops_clean_iff`): from a type on a loop the
bases lead round this loop and nowhere else, and one of the types on it has the least number.
-/

namespace Weaving

namespace Catalog

variable (catalog : Catalog)

/-- The base of one type is another. -/
def HasBase (sub super : TypeId) : Prop := catalog.base? sub = some super

theorem only_base : Relator.RightUnique catalog.HasBase :=
  fun _ _ _ isBase other => Option.some.inj (isBase.symm.trans other)

variable {catalog} {type sub super : TypeId}

/-- Whatever is above a type on a loop is on a loop with it. -/
theorem transGen_back_of_derives (loop : Relation.TransGen catalog.HasBase type type)
    (above : catalog.Derives type super) : Relation.TransGen catalog.HasBase super type := by
  induction above with
  | refl => exact loop
  | tail _ base ih =>
    obtain ⟨next, isBase, rest⟩ := Relation.TransGen.head'_iff.mp ih
    obtain rfl := catalog.only_base isBase base
    rcases Relation.reflTransGen_iff_eq_or_transGen.mp rest with rfl | rest
    · exact loop
    · exact rest

/-- On every loop there is a type with the least number. -/
theorem exists_first_of_loop (loop : Relation.TransGen catalog.HasBase type type) :
    ∃ first, Relation.TransGen catalog.HasBase first first ∧
      ∀ other, catalog.Derives first other → first.index ≤ other.index := by
  classical
  have occupied : ∃ index, ∃ other : TypeId, other.index = index ∧ catalog.Derives type other :=
    ⟨type.index, type, rfl, .refl⟩
  obtain ⟨first, isFirst, above⟩ := Nat.find_spec occupied
  refine ⟨first, (transGen_back_of_derives loop above).trans_left above, fun other further => ?_⟩
  rw [isFirst]
  exact Nat.find_min' occupied ⟨other, rfl, above.trans further⟩

end Catalog

namespace Resolution

variable {catalog : Catalog} {type sub super : TypeId}

theorem mem_ancestors_iff {limit : Nat} :
    super ∈ ancestors catalog.types limit sub ↔
      ∃ steps < limit, catalog.ancestor? (steps + 1) sub = some super := by
  induction limit generalizing sub with
  | zero => simp [ancestors]
  | succ limit ih =>
    have above : (catalog.types[sub.index]?).bind (·.base) = catalog.base? sub := rfl
    unfold ancestors
    rw [above]
    cases isBase : catalog.base? sub with
    | none => simp [Catalog.ancestor?, isBase]
    | some base =>
      rw [List.mem_cons, ih]
      constructor
      · rintro (rfl | ⟨steps, bound, reached⟩)
        · exact ⟨0, by omega, by simp [Catalog.ancestor?, isBase]⟩
        · exact ⟨steps + 1, by omega, by rw [Catalog.ancestor?, isBase]; exact reached⟩
      · rintro ⟨steps, bound, reached⟩
        rw [Catalog.ancestor?, isBase] at reached
        cases steps with
        | zero => exact Or.inl (Option.some.inj reached).symm
        | succ steps => exact Or.inr ⟨steps, by omega, reached⟩

theorem derives_of_mem_ancestors {limit : Nat} (above : super ∈ ancestors catalog.types limit sub) :
    Relation.TransGen catalog.HasBase sub super := by
  obtain ⟨steps, -, reached⟩ := mem_ancestors_iff.mp above
  obtain ⟨base, isBase, above⟩ := Option.bind_eq_some_iff.mp reached
  exact .head' isBase (catalog.derives_iff.mpr ⟨steps, above⟩)

/-- A type on a loop is found among the types above it. -/
theorem mem_ancestors_of_loop (loop : Relation.TransGen catalog.HasBase type type) :
    type ∈ ancestors catalog.types catalog.types.length type := by
  obtain ⟨base, isBase, rest⟩ := Relation.TransGen.head'_iff.mp loop
  obtain ⟨steps, reached⟩ := catalog.derives_iff.mp rest
  obtain ⟨fewer, bound, reached⟩ := catalog.exists_steps_lt (catalog.index_lt_of_base? isBase) reached
  exact mem_ancestors_iff.mpr ⟨fewer, bound, Option.bind_eq_some_iff.mpr ⟨base, isBase, reached⟩⟩

theorem transGen_of_startsLoop (starts : startsLoop catalog.types type = true) :
    Relation.TransGen catalog.HasBase type type := by
  unfold startsLoop loopThrough? at starts
  dsimp only at starts
  split at starts
  · cases starts
  · rename_i found
    split at found
    · rename_i held
      exact derives_of_mem_ancestors held
    · cases found

/-- The first type of a loop is where it starts. -/
theorem startsLoop_of_first (loop : Relation.TransGen catalog.HasBase type type)
    (first : ∀ other, catalog.Derives type other → type.index ≤ other.index) :
    startsLoop catalog.types type = true := by
  unfold startsLoop loopThrough?
  dsimp only
  rw [if_pos (mem_ancestors_of_loop loop)]
  simp only [List.all_cons, List.all_eq_true, Bool.and_eq_true, decide_eq_true_eq, Nat.le_refl, true_and]
  intro other among
  exact first other (derives_of_mem_ancestors ((List.takeWhile_sublist _).subset among)).to_reflTransGen

/-- No problem is left behind just if the bases have no loops. -/
theorem checkLoops_clean_iff (numbered : Numbered TypeEntry.id catalog.types) :
    (checkLoops catalog.types).problems = [] ↔ ∀ type, ¬ Relation.TransGen catalog.HasBase type type := by
  unfold checkLoops
  simp only [List.forM_eq_forM, Checked.problems_forM, List.flatMap_eq_nil_iff,
    Checked.problems_require_eq_nil_iff,
    Bool.not_eq_true']
  constructor
  · intro starts type loop
    obtain ⟨first, loop, least⟩ := Catalog.exists_first_of_loop loop
    obtain ⟨base, isBase, -⟩ := Relation.TransGen.head'_iff.mp loop
    obtain ⟨entry, found, -⟩ := Option.bind_eq_some_iff.mp isBase
    have number := numbered first.index entry found
    have starting := starts entry (List.mem_of_getElem? found)
    rw [number, startsLoop_of_first loop least] at starting
    cases starting
  · intro none entry held
    by_contra starts
    exact none entry.id (transGen_of_startsLoop (Bool.not_eq_false _ ▸ starts))

end Resolution

end Weaving
