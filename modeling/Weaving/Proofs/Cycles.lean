import Mathlib.Data.List.Cycle
import Weaving.Proofs.References

/-!
Cycles of bases. From a type the bases lead one way only, so that there is at most one way round from it back to
it. A search that keeps what it has seen comes back to its start, comes to a type without a base or strays into a loop
that does not lead back; in each case it is over after no more steps than there are types. So however many types lead
into a loop, it is reported once, at the first type on it (`Resolution.findsLoops_resolveTypes`).
-/

namespace Weaving

/-! ## Rounds -/

section Rounds

variable {α : Type} {links : α → α → Prop} {start goal : α} {passed : List α} {loop : Cycle α}

/-- A way along links from a thing back to it, with what it passes in between. -/
structure Round (links : α → α → Prop) (start : α) (passed : List α) : Prop where
  chain : (start :: (passed ++ [start])).IsChain links
  first : start ∉ passed

/-- A cycle along links that passes nothing twice. -/
structure IsLoop (links : α → α → Prop) (loop : Cycle α) : Prop where
  occupied : loop ≠ Cycle.nil
  nodup : loop.Nodup
  chain : loop.Chain links

theorem IsLoop.exists_round (isLoop : IsLoop links loop) (held : start ∈ loop) :
    ∃ passed : List α, loop = ↑(start :: passed) ∧ Round links start passed := by
  obtain ⟨items, rfl⟩ := Quot.exists_rep loop
  obtain ⟨earlier, later, rfl⟩ := List.append_of_mem (Cycle.mem_coe_iff.mp held)
  have turned : (↑(earlier ++ start :: later) : Cycle α) = ↑(start :: (later ++ earlier)) :=
    Cycle.coe_eq_coe.mpr List.isRotated_append
  have nodup := isLoop.nodup
  have chain := isLoop.chain
  simp only [Cycle.mk_eq_coe] at nodup chain ⊢
  rw [turned] at nodup chain ⊢
  refine ⟨later ++ earlier, rfl, (Cycle.chain_coe_cons _ _ _).mp chain, ?_⟩
  exact (List.nodup_cons.mp (Cycle.nodup_coe_iff.mp nodup)).1

theorem IsLoop.exists_mem (isLoop : IsLoop links loop) : ∃ item, item ∈ loop := by
  obtain ⟨items, rfl⟩ := Quot.exists_rep loop
  cases items with
  | nil => exact absurd rfl isLoop.occupied
  | cons item items => exact ⟨item, List.mem_cons_self⟩

theorem transGen_of_isChain (chain : (start :: (passed ++ [goal])).IsChain links) :
    Relation.TransGen links start goal := by
  induction passed generalizing start with
  | nil => exact .single (List.isChain_pair.mp chain)
  | cons item passed ih =>
    obtain ⟨link, onward⟩ := List.isChain_cons_cons.mp chain
    exact (ih onward).head link

variable (onlyOne : Relator.RightUnique links)
include onlyOne

/-- From one thing there is only one way to the next place where another is met. -/
theorem eq_of_isChain {first second : List α} (one : (start :: (first ++ [goal])).IsChain links)
    (two : (start :: (second ++ [goal])).IsChain links) (notFirst : goal ∉ first) (notSecond : goal ∉ second) :
    first = second := by
  induction first generalizing start second with
  | nil =>
    cases second with
    | nil => rfl
    | cons item second =>
      simp only [List.nil_append, List.cons_append, List.isChain_cons_cons] at one two
      exact absurd (onlyOne one.1 two.1 ▸ List.mem_cons_self) notSecond
  | cons item first ih =>
    cases second with
    | nil =>
      simp only [List.nil_append, List.cons_append, List.isChain_cons_cons] at one two
      exact absurd (onlyOne two.1 one.1 ▸ List.mem_cons_self) notFirst
    | cons other second =>
      simp only [List.cons_append, List.isChain_cons_cons] at one two
      obtain rfl := onlyOne one.1 two.1
      rw [ih one.2 two.2 (List.not_mem_of_not_mem_cons notFirst) (List.not_mem_of_not_mem_cons notSecond)]

/-- What is passed twice is followed by the same things both times, so that nothing is passed twice on the way to
the next place where another is met. -/
theorem nodup_of_isChain (chain : (start :: (passed ++ [goal])).IsChain links) (first : goal ∉ passed) :
    passed.Nodup := by
  induction passed generalizing start with
  | nil => exact List.nodup_nil
  | cons item passed ih =>
    rw [List.cons_append, List.isChain_cons_cons] at chain
    have later := List.not_mem_of_not_mem_cons first
    refine List.nodup_cons.mpr ⟨fun again => ?_, ih chain.2 later⟩
    obtain ⟨between, rest, rfl⟩ := List.append_of_mem again
    have onward : (item :: (rest ++ [goal])).IsChain links :=
      chain.2.suffix ⟨item :: between, by simp⟩
    have unmet : goal ∉ rest := fun met => later (by simp [met])
    have same := congrArg List.length (eq_of_isChain onlyOne chain.2 onward later unmet)
    simp only [List.length_append, List.length_cons] at same
    omega

theorem Round.isLoop (round : Round links start passed) : IsLoop links ↑(start :: passed) where
  occupied := by simp
  nodup := Cycle.nodup_coe_iff.mpr
    (List.nodup_cons.mpr ⟨round.first, nodup_of_isChain onlyOne round.chain round.first⟩)
  chain := (Cycle.chain_coe_cons _ _ _).mpr round.chain

theorem Round.unique {others : List α} (round : Round links start passed) (second : Round links start others) :
    passed = others :=
  eq_of_isChain onlyOne round.chain second.chain round.first second.first

end Rounds

/-! ## Loops of bases -/

namespace Resolution

variable {catalog : Catalog} {type : TypeId} {loop : List TypeId} {passed : List TypeId}

/-- The types above a type are each the base of the one before. -/
theorem isChain_ancestors (limit : Nat) (type : TypeId) :
    (type :: ancestors catalog.types limit type).IsChain catalog.HasBase := by
  induction limit generalizing type with
  | zero => exact .singleton type
  | succ limit ih =>
    have above : (catalog.types[type.index]?).bind (·.base) = catalog.base? type := rfl
    rw [ancestors, above]
    cases isBase : catalog.base? type with
    | none => exact .singleton type
    | some base => exact List.isChain_cons_cons.mpr ⟨isBase, ih base⟩

/-- What is found of a loop is a way round from the type back to it. -/
theorem round_of_loopThrough? (found : loopThrough? catalog.types type = some loop) :
    ∃ passed, loop = type :: passed ∧ Round catalog.HasBase type passed := by
  unfold loopThrough? at found
  dsimp only at found
  split at found
  · rename_i held
    cases found
    obtain ⟨passed, rest, shape, first⟩ := List.eq_append_cons_of_mem held
    have chain : (type :: ancestors catalog.types catalog.types.length type).IsChain catalog.HasBase :=
      isChain_ancestors catalog.types.length type
    have others : ∀ other ∈ passed, decide (other ≠ type) = true :=
      fun other among => decide_eq_true (ne_of_mem_of_not_mem among first)
    rw [shape] at chain ⊢
    rw [List.takeWhile_append_of_pos others, List.takeWhile_cons_of_neg (by simp), List.append_nil]
    exact ⟨passed, rfl, chain.prefix ⟨rest, by simp⟩, first⟩
  · cases found

/-- From a type on a loop a way round is found. -/
theorem loopThrough?_of_round (round : Round catalog.HasBase type passed) :
    loopThrough? catalog.types type = some (type :: passed) := by
  have held := mem_ancestors_of_loop (transGen_of_isChain round.chain)
  have found : loopThrough? catalog.types type =
      some (type :: (ancestors catalog.types catalog.types.length type).takeWhile (· ≠ type)) := if_pos held
  obtain ⟨others, same, second⟩ := round_of_loopThrough? found
  rw [found, same, round.unique catalog.only_base second]

/-- A loop is reported at its first type, and only there. -/
theorem startsLoop_iff : startsLoop catalog.types type = true ↔
    ∃ passed, Round catalog.HasBase type passed ∧ ∀ other ∈ passed, type.index ≤ other.index := by
  unfold startsLoop
  constructor
  · intro starts
    split at starts
    · cases starts
    · rename_i loop found
      obtain ⟨passed, rfl, round⟩ := round_of_loopThrough? found
      simp only [List.all_cons, List.all_eq_true, Bool.and_eq_true, decide_eq_true_eq, Nat.le_refl,
        true_and] at starts
      exact ⟨passed, round, starts⟩
  · rintro ⟨passed, round, least⟩
    rw [loopThrough?_of_round round]
    simpa using least

/-! ## Searching with what has been seen -/

/-- The base of one resolved type is another. -/
def Linked (types : List TypeEntry) (sub super : TypeId) : Prop :=
  (types[sub.index]?).bind (·.base) = some super

/-- A search for the loop through a type goes from base to base and keeps what it has seen. It is over where there is
no further base, where it is back at its start, and also where it has strayed into a loop that does not lead back
there. -/
inductive Searches (types : List TypeEntry) (start : TypeId) :
    List TypeId → Option TypeId → Option (List TypeId) → Prop
  | ended {seen : List TypeId} : Searches types start seen none none
  | back {seen : List TypeId} : Searches types start seen (some start) (some seen)
  | strayed {seen : List TypeId} {type : TypeId} (other : type ≠ start) (again : type ∈ seen) :
      Searches types start seen (some type) none
  | went {seen : List TypeId} {type : TypeId} {outcome : Option (List TypeId)} (other : type ≠ start)
      (unseen : type ∉ seen)
      (onward : Searches types start (seen ++ [type]) ((types[type.index]?).bind (·.base)) outcome) :
      Searches types start seen (some type) outcome

theorem loopThrough?_eq_none (straight : ¬ Relation.TransGen catalog.HasBase type type) :
    loopThrough? catalog.types type = none := by
  rw [Option.eq_none_iff_forall_ne_some]
  intro loop found
  obtain ⟨passed, -, round⟩ := round_of_loopThrough? found
  exact straight (transGen_of_isChain round.chain)

section Searching

variable {start last base top : TypeId} (chain : (start :: passed).IsChain catalog.HasBase)
  (ends : (start :: passed).getLast? = some last)
include chain ends

/-- All that has been seen but for the last type has its base among what has been seen after the start. -/
theorem eq_last_or_exists_base (held : type ∈ start :: passed) :
    type = last ∨ ∃ base ∈ passed, catalog.HasBase type base := by
  induction passed generalizing start with
  | nil =>
    obtain rfl := List.mem_singleton.mp held
    exact .inl (Option.some.inj ends)
  | cons next passed ih =>
    obtain ⟨isBase, onward⟩ := List.isChain_cons_cons.mp chain
    rcases List.mem_cons.mp held with rfl | later
    · exact .inr ⟨next, List.mem_cons_self, isBase⟩
    · rw [List.getLast?_cons_cons] at ends
      rcases ih onward ends later with same | ⟨base, among, isBase⟩
      · exact .inl same
      · exact .inr ⟨base, List.mem_cons_of_mem _ among, isBase⟩

theorem derives_last : catalog.Derives start last :=
  List.relationReflTransGen_of_exists_isChain_cons passed chain
    (Option.some.inj ((List.getLast?_eq_some_getLast (List.cons_ne_nil start passed)).symm.trans ends))

/-- There is no loop through the start where the search has come to a type without a base. -/
theorem straight_of_ended (top : catalog.base? last = none) :
    ¬ Relation.TransGen catalog.HasBase start start := by
  intro loop
  have back := Catalog.transGen_back_of_derives loop (derives_last chain ends)
  obtain ⟨base, isBase, -⟩ := Relation.TransGen.head'_iff.mp back
  cases top.symm.trans isBase

variable (isBase : catalog.base? last = some base)
include isBase

/-- Once the search is back at a type that it has seen after the start, it sees no others. -/
theorem mem_of_derives (again : base ∈ passed) (above : catalog.Derives base top) : top ∈ passed := by
  induction above with
  | refl => exact again
  | tail _ isNext ih =>
    rcases eq_last_or_exists_base chain ends (List.mem_cons_of_mem _ ih) with rfl | ⟨other, among, isOther⟩
    · exact catalog.only_base isBase isNext ▸ again
    · exact catalog.only_base isOther isNext ▸ among

theorem straight_of_strayed (nodup : (start :: passed).Nodup) (again : base ∈ passed) :
    ¬ Relation.TransGen catalog.HasBase start start := by
  intro loop
  have back := Catalog.transGen_back_of_derives loop ((derives_last chain ends).tail isBase)
  exact (List.nodup_cons.mp nodup).1 (mem_of_derives chain ends isBase again back.to_reflTransGen)

/-- A search that goes on has not yet seen more types than there are. -/
theorem length_le_of_search (nodup : (start :: passed).Nodup) :
    (start :: passed).length ≤ catalog.types.length := by
  have inside : (start :: passed).map Id.index ⊆ List.range catalog.types.length := by
    intro index held
    obtain ⟨type, among, rfl⟩ := List.mem_map.mp held
    rcases eq_last_or_exists_base chain ends among with rfl | ⟨other, -, isOther⟩
    · exact List.mem_range.mpr (catalog.index_lt_of_base? isBase)
    · exact List.mem_range.mpr (catalog.index_lt_of_base? isOther)
  have distinct : ((start :: passed).map Id.index).Nodup := nodup.map fun ⟨_⟩ ⟨_⟩ same => congrArg Id.mk same
  simpa using (distinct.subperm inside).length_le

end Searching

/-- A search comes to an end from wherever it is, with the loop that there is through its start. -/
theorem searches_of_chain {start last : TypeId} {passed : List TypeId}
    (chain : (start :: passed).IsChain catalog.HasBase)
    (ends : (start :: passed).getLast? = some last) (nodup : (start :: passed).Nodup) :
    Searches catalog.types start (start :: passed) (catalog.base? last) (loopThrough? catalog.types start) := by
  cases isBase : catalog.base? last with
  | none =>
    rw [loopThrough?_eq_none (straight_of_ended chain ends isBase)]
    exact .ended
  | some base =>
    have onward : (start :: (passed ++ [base])).IsChain catalog.HasBase := by
      refine List.isChain_append.mpr ⟨chain, .singleton base, fun type isLast next isNext => ?_⟩
      obtain rfl := Option.some.inj (ends.symm.trans isLast)
      obtain rfl := Option.some.inj isNext
      exact isBase
    by_cases same : base = start
    · subst same
      rw [loopThrough?_of_round ⟨onward, (List.nodup_cons.mp nodup).1⟩]
      exact .back
    · by_cases again : base ∈ start :: passed
      · have later := (List.mem_cons.mp again).resolve_left same
        rw [loopThrough?_eq_none (straight_of_strayed chain ends isBase nodup later)]
        exact .strayed same again
      · have room := length_le_of_search chain ends isBase nodup
        have longer : (start :: (passed ++ [base])).Nodup := by
          rw [← List.cons_append, List.nodup_append_comm]
          exact List.nodup_cons.mpr ⟨again, nodup⟩
        have isLast : (start :: (passed ++ [base])).getLast? = some base := by
          rw [← List.cons_append, List.getLast?_concat]
        have rest : Searches catalog.types start (start :: (passed ++ [base])) (catalog.base? base)
            (loopThrough? catalog.types start) := searches_of_chain onward isLast longer
        exact .went same again rest
termination_by catalog.types.length - passed.length
decreasing_by
  rw [List.length_cons] at room
  rw [List.length_append, List.length_singleton]
  omega

/-- The search from a type on comes to an end, and it finds the loop that there is. -/
theorem searches (catalog : Catalog) (type : TypeId) :
    Searches catalog.types type [type] (catalog.base? type) (loopThrough? catalog.types type) :=
  searches_of_chain (.singleton type) rfl (List.nodup_singleton type)

/-- Where there are no loops, a search ends at a type without a base. -/
theorem Searches.ends (straight : ∀ type, ¬ Relation.TransGen catalog.HasBase type type) {start : TypeId}
    {seen : List TypeId} {current : Option TypeId} {outcome : Option (List TypeId)}
    (search : Searches catalog.types start seen current outcome) (held : start ∈ seen)
    (behind : ∀ next, current = some next → ∀ type ∈ seen, Relation.TransGen catalog.HasBase type next) :
    ∀ next, current = some next → ∃ top, catalog.Derives next top ∧ catalog.base? top = none := by
  induction search with
  | ended =>
    intro next isNext
    cases isNext
  | back => exact absurd (behind start rfl start held) (straight start)
  | strayed _ again => exact absurd (behind _ rfl _ again) (straight _)
  | @went seen type outcome _ _ _ ih =>
    rintro _ ⟨rfl⟩
    cases isBase : catalog.base? type with
    | none => exact ⟨type, .refl, isBase⟩
    | some base =>
      have further : ∀ other ∈ seen ++ [type], Relation.TransGen catalog.HasBase other base := by
        intro other among
        rcases List.mem_append.mp among with earlier | last
        · exact (behind type rfl other earlier).tail isBase
        · obtain rfl := List.mem_singleton.mp last
          exact .single isBase
      obtain ⟨top, above, isTop⟩ := ih (List.mem_append_left _ held)
        (fun next isNext => Option.some.inj (isBase.symm.trans isNext) ▸ further) base isBase
      exact ⟨top, above.head isBase, isTop⟩

/-- There are no loops just if the bases of all types come to an end. -/
theorem straight_iff_ends : (∀ type, ¬ Relation.TransGen catalog.HasBase type type) ↔
    ∀ type, ∃ top, catalog.Derives type top ∧ catalog.base? top = none := by
  constructor
  · intro straight type
    cases isBase : catalog.base? type with
    | none => exact ⟨type, .refl, isBase⟩
    | some base =>
      have behind : ∀ next, catalog.base? type = some next → ∀ other ∈ [type],
          Relation.TransGen catalog.HasBase other next := by
        intro next isNext other among
        obtain rfl := List.mem_singleton.mp among
        exact .single isNext
      obtain ⟨top, above, isTop⟩ := (searches catalog type).ends straight List.mem_cons_self behind base isBase
      exact ⟨top, above.head isBase, isTop⟩
  · intro ends type loop
    obtain ⟨top, above, isTop⟩ := ends type
    have back := Catalog.transGen_back_of_derives loop above
    obtain ⟨base, isBase, -⟩ := Relation.TransGen.head'_iff.mp back
    cases isTop.symm.trans isBase

/-! ## Reports -/

/-- Each loop of the bases of some types once, with the first of its types. -/
structure Reports (types : List TypeEntry) (reports : List (Cycle TypeId × TypeEntry)) : Prop where
  nodup : (reports.map (·.1)).Nodup
  loops : ∀ loop, loop ∈ reports.map (·.1) ↔ IsLoop (Linked types) loop
  first : ∀ report ∈ reports, report.2 ∈ types ∧ report.2.id ∈ report.1 ∧
    ∀ other ∈ report.1, report.2.id.index ≤ other.index

/-- The loop through a type. -/
def loopOf (types : List TypeEntry) (entry : TypeEntry) : Cycle TypeId :=
  ((loopThrough? types entry.id).getD [] : List TypeId)

/-- The loops that are reported, with the types where they start. -/
def loopReports (types : List TypeEntry) : List (Cycle TypeId × TypeEntry) :=
  (types.filter fun entry => startsLoop types entry.id).map fun entry => (loopOf types entry, entry)

theorem loopOf_eq_of_round {entry : TypeEntry} (round : Round catalog.HasBase entry.id passed) :
    loopOf catalog.types entry = ↑(entry.id :: passed) := by
  rw [loopOf, loopThrough?_of_round round]
  rfl

/-- A type where a loop starts is the first of this loop. -/
theorem loopOf_of_startsLoop {entry : TypeEntry} (starts : startsLoop catalog.types entry.id = true) :
    IsLoop catalog.HasBase (loopOf catalog.types entry) ∧ entry.id ∈ loopOf catalog.types entry ∧
      ∀ other ∈ loopOf catalog.types entry, entry.id.index ≤ other.index := by
  obtain ⟨passed, round, least⟩ := startsLoop_iff.mp starts
  rw [loopOf_eq_of_round round]
  refine ⟨round.isLoop catalog.only_base, List.mem_cons_self, fun other among => ?_⟩
  rcases List.mem_cons.mp among with rfl | later
  · exact Nat.le_refl _
  · exact least other later

/-- One of the types of a loop has the least number. -/
theorem exists_first_of_isLoop {loop : Cycle TypeId} (isLoop : IsLoop catalog.HasBase loop) :
    ∃ first ∈ loop, ∀ other ∈ loop, first.index ≤ other.index := by
  classical
  obtain ⟨type, held⟩ := isLoop.exists_mem
  have occupied : ∃ index, ∃ other ∈ loop, other.index = index := ⟨type.index, type, held, rfl⟩
  obtain ⟨first, among, isFirst⟩ := Nat.find_spec occupied
  exact ⟨first, among, fun other there => isFirst ▸ Nat.find_min' occupied ⟨other, there, rfl⟩⟩

/-- Each loop is among the reports, with the type where it starts. -/
theorem exists_entry_of_isLoop (numbered : Numbered TypeEntry.id catalog.types) {loop : Cycle TypeId}
    (isLoop : IsLoop catalog.HasBase loop) :
    ∃ entry ∈ catalog.types, startsLoop catalog.types entry.id = true ∧ loopOf catalog.types entry = loop := by
  obtain ⟨first, held, least⟩ := exists_first_of_isLoop isLoop
  obtain ⟨passed, rfl, round⟩ := isLoop.exists_round held
  obtain ⟨base, isBase, -⟩ := Relation.TransGen.head'_iff.mp (transGen_of_isChain round.chain)
  obtain ⟨entry, found, -⟩ := Option.bind_eq_some_iff.mp isBase
  obtain rfl : entry.id = first := numbered first.index entry found
  have starts := startsLoop_iff.mpr ⟨passed, round, fun other among => least other (List.mem_cons_of_mem _ among)⟩
  exact ⟨entry, List.mem_of_getElem? found, starts, loopOf_eq_of_round round⟩

theorem reports_loopReports (numbered : Numbered TypeEntry.id catalog.types) :
    Reports catalog.types (loopReports catalog.types) := by
  have shape : (loopReports catalog.types).map (·.1) =
      (catalog.types.filter fun entry => startsLoop catalog.types entry.id).map (loopOf catalog.types) :=
    List.map_map ..
  constructor
  · rw [shape]
    refine List.Nodup.map_on (fun one held other among same => ?_) (numbered.nodup.filter _)
    obtain ⟨isOne, oneStarts⟩ := List.mem_filter.mp held
    obtain ⟨isOther, otherStarts⟩ := List.mem_filter.mp among
    obtain ⟨-, oneHeld, oneLeast⟩ := loopOf_of_startsLoop oneStarts
    obtain ⟨-, otherHeld, otherLeast⟩ := loopOf_of_startsLoop otherStarts
    have index : one.id.index = other.id.index :=
      Nat.le_antisymm (oneLeast _ (same ▸ otherHeld)) (otherLeast _ (same ▸ oneHeld))
    have there := numbered.getElem?_of_mem isOne
    rw [index, numbered.getElem?_of_mem isOther] at there
    exact (Option.some.inj there).symm
  · intro loop
    rw [shape, List.mem_map]
    constructor
    · rintro ⟨entry, held, rfl⟩
      exact (loopOf_of_startsLoop (List.mem_filter.mp held).2).1
    · intro isLoop
      obtain ⟨entry, held, starts, same⟩ := exists_entry_of_isLoop numbered isLoop
      exact ⟨entry, List.mem_filter.mpr ⟨held, starts⟩, same⟩
  · intro report held
    obtain ⟨entry, among, rfl⟩ := List.mem_map.mp held
    obtain ⟨isEntry, starts⟩ := List.mem_filter.mp among
    exact ⟨isEntry, (loopOf_of_startsLoop starts).2⟩

/-! ## Types as they are resolved -/

/-- The types that are resolved: of those with one qualified name the first that is declared. -/
def keptTypes (declared : List TypeDeclaration) : List TypeDeclaration :=
  declared.eraseDupsBy fun first second => first.qualifiedName = second.qualifiedName

variable {modules : List ModuleEntry} {declared : List TypeDeclaration}

/-- A type is kept unless one of its name is kept already. -/
theorem value_addType (kept : List TypeDeclaration) (type : TypeDeclaration) :
    (addType modules (kept.zipIdx.map (draft modules)) type).value =
      (if kept.any fun other => type.qualifiedName = other.qualifiedName then kept
        else kept ++ [type]).zipIdx.map (draft modules) := by
  have taken : (kept.zipIdx.map (draft modules)).any (fun held => held.1.declaredName = type.qualifiedName) =
      kept.any fun other => type.qualifiedName = other.qualifiedName := by
    conv_rhs => rw [← List.zipIdx_map_fst 0 kept, List.any_map]
    simp only [List.any_map, Function.comp_def, draft, eq_comm]
  unfold addType
  dsimp only
  rw [taken]
  split
  · rfl
  · rw [List.zipIdx_append, List.map_append]
    simp [draft, resolveModule]

/-- Whatever is wrong with the types, there is a draft of each that is kept. -/
theorem value_addTypes (kept : List TypeDeclaration) :
    (declared.foldlM (addType modules) (kept.reverse.zipIdx.map (draft modules))).value =
      (List.eraseDupsBy.loop (fun first second => first.qualifiedName = second.qualifiedName)
        declared kept).zipIdx.map (draft modules) := by
  induction declared generalizing kept with
  | nil => rfl
  | cons type declared ih =>
    rw [List.foldlM_cons, Checked.value_bind, value_addType, List.any_reverse, List.eraseDupsBy.loop]
    cases kept.any fun other => type.qualifiedName = other.qualifiedName with
    | true => exact ih kept
    | false =>
      rw [if_neg Bool.false_ne_true, ← List.reverse_cons]
      exact ih (type :: kept)

/-- No two types that are kept have one name. -/
theorem nodup_eraseDups (kept : List TypeDeclaration) (distinct : (kept.map (·.qualifiedName)).Nodup) :
    ((List.eraseDupsBy.loop (fun first second => first.qualifiedName = second.qualifiedName)
      declared kept).map (·.qualifiedName)).Nodup := by
  induction declared generalizing kept with
  | nil =>
    rw [List.eraseDupsBy.loop, List.map_reverse]
    exact List.nodup_reverse.mpr distinct
  | cons type declared ih =>
    rw [List.eraseDupsBy.loop]
    cases taken : kept.any fun other => type.qualifiedName = other.qualifiedName with
    | true => exact ih kept distinct
    | false =>
      refine ih (type :: kept) (List.nodup_cons.mpr ⟨fun among => ?_, distinct⟩)
      obtain ⟨other, held, same⟩ := List.mem_map.mp among
      simpa [same] using List.any_eq_false.mp taken other held

theorem nodup_keptTypes : ((keptTypes declared).map (·.qualifiedName)).Nodup :=
  nodup_eraseDups [] List.nodup_nil

/-- The types that are resolved mirror those that are kept, bases included. -/
theorem resolveTypes_keeps :
    Mirrors (BaseShown (draftEntries modules (keptTypes declared))) (keptTypes declared)
      (resolveTypes modules declared).value := by
  have drafts : (declared.foldlM (addType modules) []).value = (keptTypes declared).zipIdx.map (draft modules) :=
    value_addTypes []
  unfold resolveTypes
  simp only [Checked.value_bind, Checked.value_pure, Checked.value_mapM, drafts]
  have mirrors := @drafts_mirror { types := keptTypes declared } modules
  exact mirrors.map fun index type held _ shown => shown ▸ resolveBase_mirror

/-! ## Problems -/

/-- The type that a problem names as one on a loop. -/
def cycleName? : Problem → Option String
  | .inheritanceCycle name => some name
  | _ => none

theorem cycleName?_addType (drafts : List Draft) (type : TypeDeclaration) :
    (addType modules drafts type).problems.filterMap cycleName? = [] := by
  unfold addType resolveModule
  dsimp only
  split
  · rfl
  · cases findModule? modules type.module <;> rfl

theorem cycleName?_addTypes (drafts : List Draft) :
    (declared.foldlM (addType modules) drafts).problems.filterMap cycleName? = [] := by
  induction declared generalizing drafts with
  | nil => rfl
  | cons type declared ih =>
    rw [List.foldlM_cons, Checked.problems_bind, List.filterMap_append, cycleName?_addType, ih, List.append_nil]

theorem cycleName?_resolveBase (types : List TypeEntry) (held : Draft) :
    (resolveBase types held).problems.filterMap cycleName? = [] := by
  obtain ⟨entry, base⟩ := held
  cases base with
  | none => rfl
  | some base =>
    simp only [resolveBase, resolveType, Checked.problems_bind, Checked.problems_pure, Checked.found]
    cases findType? types base <;> rfl

/-- What is checked of each item leaves a problem behind for those that fail. -/
theorem flatMap_require {α : Type} (fails : α → Bool) (problem : α → Problem) (items : List α) :
    (items.flatMap fun item => (Checked.require (!fails item) (problem item)).problems) =
      (items.filter fails).map problem := by
  induction items with
  | nil => rfl
  | cons item items ih =>
    rw [List.flatMap_cons, ih, List.filter_cons]
    cases fails item <;> rfl

/-- A problem is left behind for each report, in their order. -/
theorem problems_checkLoops (types : List TypeEntry) : (checkLoops types).problems =
    (loopReports types).map fun report => .inheritanceCycle report.2.qualifiedName := by
  unfold checkLoops loopReports
  rw [List.forM_eq_forM, Checked.problems_forM, flatMap_require, List.map_map]
  rfl

theorem cycleName?_checkLoops (types : List TypeEntry) :
    (checkLoops types).problems.filterMap cycleName? = (loopReports types).map (·.2.qualifiedName) := by
  rw [problems_checkLoops, List.filterMap_map]
  exact congrFun (List.filterMap_eq_map (f := fun report : Cycle TypeId × TypeEntry => report.2.qualifiedName)) _

theorem cycleName?_resolveTypes :
    (resolveTypes modules declared).problems.filterMap cycleName? =
      (loopReports (resolveTypes modules declared).value).map (·.2.qualifiedName) := by
  have drafts : (declared.foldlM (addType modules) []).problems.filterMap cycleName? = [] :=
    cycleName?_addTypes []
  unfold resolveTypes
  simp only [Checked.problems_bind, Checked.problems_pure, Checked.problems_mapM, List.append_nil,
    List.filterMap_append, Checked.value_bind, Checked.value_pure, drafts, List.nil_append, cycleName?_checkLoops]
  rw [List.filterMap_flatMap, List.flatMap_eq_nil_iff.mpr fun held _ => cycleName?_resolveBase _ held,
    List.nil_append]

/-- There is nothing to report just if there are no loops. -/
theorem loopReports_eq_nil_iff (numbered : Numbered TypeEntry.id catalog.types) :
    loopReports catalog.types = [] ↔ ∀ type, ¬ Relation.TransGen catalog.HasBase type type := by
  rw [← checkLoops_clean_iff numbered, problems_checkLoops, List.map_eq_nil_iff]

theorem inheritanceCycle_mem_iff {name : String} {problems : List Problem} :
    .inheritanceCycle name ∈ problems ↔ name ∈ problems.filterMap cycleName? := by
  rw [List.mem_filterMap]
  constructor
  · intro held
    exact ⟨_, held, rfl⟩
  · rintro ⟨problem, held, named⟩
    cases problem <;> cases named
    exact held

/-- What resolving types says about the loops of their bases. -/
structure FindsLoops (modules : List ModuleEntry) (declared : List TypeDeclaration) : Prop where
  mirrors : Mirrors TypeShown (keptTypes declared) (resolveTypes modules declared).value
  links : ∀ sub super, Linked (resolveTypes modules declared).value sub super ↔
    Declarations.Extends { types := keptTypes declared } sub.index super.index
  reports : ∃ reports, Reports (resolveTypes modules declared).value reports ∧
    (resolveTypes modules declared).problems.filterMap cycleName? = reports.map (·.2.qualifiedName)
  searches : ∀ type, Searches (resolveTypes modules declared).value type [type]
    (((resolveTypes modules declared).value[type.index]?).bind (·.base))
    (loopThrough? (resolveTypes modules declared).value type)
  ends : (∀ name, .inheritanceCycle name ∉ (resolveTypes modules declared).problems) ↔
    ∀ type, ∃ top, Relation.ReflTransGen (Linked (resolveTypes modules declared).value) type top ∧
      ∀ super, ¬ Linked (resolveTypes modules declared).value top super

/-- **Each loop is reported once.** Whatever types are declared, and whether or not their bases are known, come
later or lead back to themselves: of those with one name the first is kept, its base is the type that the name of the
base refers to, and the problems that name loops are, one for one, the loops of these bases, each with the first of its
types. The search for a loop comes to an end from every type with the loop that there is through it. No problem names
a loop just if the bases of all types come to an end. -/
theorem findsLoops_resolveTypes (modules : List ModuleEntry) (declared : List TypeDeclaration) :
    FindsLoops modules declared := by
  let catalog : Catalog := ⟨[], (resolveTypes modules declared).value, [], [], [], []⟩
  have based : Mirrors (BaseShown _) (keptTypes declared) catalog.types := resolveTypes_keeps
  have mirrors := based.mono fun _ _ _ shown => shown.toTypeShown
  have numbered : Numbered TypeEntry.id catalog.types := based.numbered fun _ _ _ shown => shown.id
  have found : Declarations.Found { types := keptTypes declared } (draftEntries modules (keptTypes declared)) :=
    found_of_mirrors draftEntries_mirror nodup_keptTypes
  have links (sub super : TypeId) : catalog.base? sub = some super ↔
      Declarations.Extends { types := keptTypes declared } sub.index super.index :=
    base?_eq_some_iff found based
  refine {
    mirrors
    links
    reports := ⟨loopReports catalog.types, reports_loopReports numbered, cycleName?_resolveTypes⟩
    searches := searches catalog
    ends := ?_ }
  have named : (∀ name, .inheritanceCycle name ∉ (resolveTypes modules declared).problems) ↔
      loopReports catalog.types = [] := by
    simp only [inheritanceCycle_mem_iff, cycleName?_resolveTypes]
    rw [← List.eq_nil_iff_forall_not_mem, List.map_eq_nil_iff]
  rw [named, loopReports_eq_nil_iff numbered, straight_iff_ends]
  simp only [Option.eq_none_iff_forall_ne_some]
  rfl

/-- Two types that are each other's base are reported once, and a type that leads to them is not. -/
example : (resolveTypes [⟨⟨0⟩, "zoo"⟩]
    [{ name := "Cub", module := "zoo", base := some "Hen" }, { name := "Egg", module := "zoo", base := some "Hen" },
      { name := "Hen", module := "zoo", base := some "Egg" }]).problems = [.inheritanceCycle "Egg"] := by
  decide +kernel

end Resolution

end Weaving
