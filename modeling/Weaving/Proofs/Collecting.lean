import Mathlib.Data.List.Nodup
import Weaving.Proofs.Numbering

/-!
Collecting declarations. Lists of entries are collected one declaration at a time; a declaration that is
not sound, or that clashes with an entry, leaves a problem behind and may be left out. No problem is left
behind just if all declarations are sound and no two of them clash (`Checked.Adds.clean_iff`), and then the
entries mirror the declarations, each in its place (`Mirrors`).
-/

namespace Weaving

variable {α β γ : Type}

/-! ## Entries that mirror declarations -/

/-- There is an entry for each item, in the same place, and it shows the item. -/
structure Mirrors (shows : Nat → α → β → Prop) (items : List α) (entries : List β) : Prop where
  shown : ∀ index item, items[index]? = some item →
    ∃ entry, entries[index]? = some entry ∧ shows index item entry
  source : ∀ index entry, entries[index]? = some entry →
    ∃ item, items[index]? = some item ∧ shows index item entry

namespace Mirrors

variable {shows : Nat → α → β → Prop} {items : List α} {entries : List β}

theorem of_zipIdx {entry : α × Nat → β}
    (each : ∀ index item, items[index]? = some item → shows index item (entry (item, index))) :
    Mirrors shows items (items.zipIdx.map entry) where
  shown index item found := ⟨entry (item, index), by simp [found], each index item found⟩
  source index held found := by
    simp only [List.getElem?_map, List.getElem?_zipIdx, Option.map_map, Option.map_eq_some_iff] at found
    obtain ⟨item, found, rfl⟩ := found
    exact ⟨item, found, by simpa using each index item found⟩

/-- Nothing moves to another place if nothing is left out. -/
theorem getElem?_filterMap {change : β → Option γ} {held : List β}
    (all : ∀ item ∈ held, (change item).isSome = true) (index : Nat) :
    (held.filterMap change)[index]? = held[index]?.bind change := by
  induction held generalizing index with
  | nil => simp
  | cons item held ih =>
    obtain ⟨result, there⟩ := Option.isSome_iff_exists.mp (all item List.mem_cons_self)
    rw [List.filterMap_cons_some there]
    cases index with
    | zero => simp [there]
    | succ index => simpa using ih (fun other among => all other (List.mem_cons_of_mem _ among)) index

theorem of_filterMap {change : α × Nat → Option β}
    (each : ∀ index item, items[index]? = some item →
      ∃ entry, change (item, index) = some entry ∧ shows index item entry) :
    Mirrors shows items (items.zipIdx.filterMap change) := by
  have all : ∀ held ∈ items.zipIdx, (change held).isSome = true := by
    rintro ⟨item, index⟩ among
    obtain ⟨entry, there, -⟩ := each index item (List.mem_zipIdx_iff_getElem?.mp among)
    exact Option.isSome_iff_exists.mpr ⟨entry, there⟩
  constructor
  · intro index item found
    obtain ⟨entry, there, isShown⟩ := each index item found
    exact ⟨entry, by simp [getElem?_filterMap all, found, there], isShown⟩
  · intro index entry held
    rw [getElem?_filterMap all, List.getElem?_zipIdx] at held
    obtain ⟨_, isPair, there⟩ := Option.bind_eq_some_iff.mp held
    obtain ⟨item, found, rfl⟩ := Option.map_eq_some_iff.mp isPair
    obtain ⟨other, same, isShown⟩ := each index item found
    rw [Nat.zero_add, same] at there
    exact ⟨item, found, Option.some.inj there ▸ isShown⟩

theorem map {other : Nat → α → γ → Prop} (mirrors : Mirrors shows items entries) {change : β → γ}
    (same : ∀ index item entry, items[index]? = some item → shows index item entry →
      other index item (change entry)) : Mirrors other items (entries.map change) where
  shown index item found := by
    obtain ⟨entry, held, isShown⟩ := mirrors.shown index item found
    exact ⟨change entry, by simp [held], same index item entry found isShown⟩
  source index changed held := by
    rw [List.getElem?_map, Option.map_eq_some_iff] at held
    obtain ⟨entry, held, rfl⟩ := held
    obtain ⟨item, found, isShown⟩ := mirrors.source index entry held
    exact ⟨item, found, same index item entry found isShown⟩

theorem mono {other : Nat → α → β → Prop} (mirrors : Mirrors shows items entries)
    (weaker : ∀ index item entry, shows index item entry → other index item entry) :
    Mirrors other items entries where
  shown index item found := (mirrors.shown index item found).imp fun _ => And.imp_right (weaker _ _ _)
  source index entry held := (mirrors.source index entry held).imp fun _ => And.imp_right (weaker _ _ _)

theorem of_mem (mirrors : Mirrors shows items entries) {item : α} (held : item ∈ items) :
    ∃ index entry, items[index]? = some item ∧ entries[index]? = some entry ∧ shows index item entry := by
  obtain ⟨index, found⟩ := List.mem_iff_getElem?.mp held
  obtain ⟨entry, there, isShown⟩ := mirrors.shown index item found
  exact ⟨index, entry, found, there, isShown⟩

theorem of_mem_entries (mirrors : Mirrors shows items entries) {entry : β} (held : entry ∈ entries) :
    ∃ index item, items[index]? = some item ∧ entries[index]? = some entry ∧ shows index item entry := by
  obtain ⟨index, found⟩ := List.mem_iff_getElem?.mp held
  obtain ⟨item, there, isShown⟩ := mirrors.source index entry found
  exact ⟨index, item, there, found, isShown⟩

theorem numbered {entity : Entity} {id : β → Id entity} (mirrors : Mirrors shows items entries)
    (number : ∀ index item entry, shows index item entry → id entry = ⟨index⟩) : Numbered id entries := by
  intro index entry found
  obtain ⟨item, -, isShown⟩ := mirrors.source index entry found
  exact number index item entry isShown

end Mirrors

/-! ## Collecting entries -/

namespace Checked

@[simp]
theorem problems_report (problem : Problem) : (report problem).problems = [problem] := rfl

@[simp]
theorem problems_require_eq_nil_iff {condition : Bool} {problem : Problem} :
    (require condition problem).problems = [] ↔ condition = true := by
  cases condition <;> simp [require, report]

@[simp]
theorem problems_found_eq_nil_iff {result : Option α} {problem : Problem} :
    (found result problem).problems = [] ↔ result.isSome = true := by
  cases result <;> simp [found]

@[simp]
theorem problems_forM (check : α → Checked Unit) (items : List α) :
    (forM items check).problems = items.flatMap fun item => (check item).problems := by
  induction items with
  | nil => rfl
  | cons item items ih => simp [ih]

/-- A step adds an entry for a sound item. It leaves a problem behind just if the item is not sound or if
it clashes with an entry that is held already. -/
structure Adds (step : List β → α → Checked (List β)) (entry : α × Nat → β) (sound : α → Prop)
    (clash : β → α → Prop) : Prop where
  clean : ∀ held item, (step held item).problems = [] ↔ sound item ∧ ∀ other ∈ held, ¬ clash other item
  value : ∀ held item, (step held item).problems = [] →
    (step held item).value = held ++ [entry (item, held.length)]

namespace Adds

variable {step : List β → α → Checked (List β)} {entry : α × Nat → β} {sound : α → Prop}
  {clash : β → α → Prop} {clashes : α → α → Prop}

theorem value_foldlM (adds : Adds step entry sound clash) {items : List α} {held : List β}
    (clean : (items.foldlM step held).problems = []) :
    (items.foldlM step held).value = held ++ (items.zipIdx held.length).map entry := by
  induction items generalizing held with
  | nil => simp
  | cons item items ih =>
    simp only [List.foldlM_cons, problems_bind, value_bind, List.append_eq_nil_iff] at clean ⊢
    obtain ⟨first, rest⟩ := clean
    rw [adds.value held item first] at rest ⊢
    simp [ih rest]

theorem clean_foldlM_iff (adds : Adds step entry sound clash)
    (apart : ∀ first index second, sound first → (clash (entry (first, index)) second ↔ clashes first second))
    {items : List α} {held : List β} :
    (items.foldlM step held).problems = [] ↔
      (∀ item ∈ items, sound item) ∧ (∀ other ∈ held, ∀ item ∈ items, ¬ clash other item) ∧
        items.Pairwise fun first second => ¬ clashes first second := by
  induction items generalizing held with
  | nil => simp
  | cons item items ih =>
    simp only [List.foldlM_cons, problems_bind, List.append_eq_nil_iff, List.forall_mem_cons,
      List.pairwise_cons]
    constructor
    · rintro ⟨first, rest⟩
      have ⟨isSound, free⟩ := (adds.clean held item).mp first
      rw [adds.value held item first] at rest
      obtain ⟨sounds, frees, pairwise⟩ := ih.mp rest
      refine ⟨⟨isSound, sounds⟩, fun other isHeld => ⟨free other isHeld, ?_⟩, fun second among => ?_,
        pairwise⟩
      · exact frees other (List.mem_append_left _ isHeld)
      · rw [← apart item held.length second isSound]
        exact frees _ (List.mem_append_right _ (List.mem_singleton_self _)) second among
    · rintro ⟨⟨isSound, sounds⟩, frees, free, pairwise⟩
      have first := (adds.clean held item).mpr ⟨isSound, fun other isHeld => (frees other isHeld).1⟩
      refine ⟨first, ?_⟩
      rw [adds.value held item first, ih]
      refine ⟨sounds, fun other isHeld second among => ?_, pairwise⟩
      rcases List.mem_append.mp isHeld with isHeld | isHeld
      · exact (frees other isHeld).2 second among
      · rw [List.mem_singleton.mp isHeld, apart item held.length second isSound]
        exact free second among

/-- Nothing is wrong with a whole list just if every item is sound and no two clash. -/
theorem clean_iff (adds : Adds step entry sound clash) (clashes : α → α → Prop)
    (apart : ∀ first index second, sound first → (clash (entry (first, index)) second ↔ clashes first second))
    (items : List α) :
    (items.foldlM step []).problems = [] ↔
      (∀ item ∈ items, sound item) ∧ items.Pairwise fun first second => ¬ clashes first second := by
  rw [adds.clean_foldlM_iff apart]
  simp

theorem value_eq (adds : Adds step entry sound clash) {items : List α}
    (clean : (items.foldlM step []).problems = []) :
    (items.foldlM step []).value = items.zipIdx.map entry :=
  adds.value_foldlM clean

end Adds

end Checked

/-! ## Distinct names -/

theorem Numbered.nodup {entity : Entity} {id : α → Id entity} {items : List α}
    (numbered : Numbered id items) :
    items.Nodup :=
  List.Nodup.of_map id
    (numbered.pairwise_lt.imp fun before same => Nat.ne_of_lt before (congrArg Id.index same))

variable {name : α → γ} {items : List α}

theorem nodup_map_iff :
    (items.map name).Nodup ↔ items.Pairwise fun first second => ¬ name first = name second :=
  List.pairwise_map

/-- A thing with a name of its own stands in one place only. -/
theorem index_eq_of_nodup (distinct : (items.map name).Nodup) {i j : Nat} {first second : α}
    (atFirst : items[i]? = some first) (atSecond : items[j]? = some second)
    (same : name first = name second) : i = j := by
  have inside : i < (items.map name).length := by
    rw [List.length_map]
    exact (List.getElem?_eq_some_iff.mp atFirst).1
  rw [← List.getElem?_inj inside distinct]
  simp [atFirst, atSecond, same]

/-- A list without repeats that holds one thing only. -/
theorem eq_singleton_of_nodup (distinct : items.Nodup) {item : α} (held : item ∈ items)
    (only : ∀ other ∈ items, other = item) : items = [item] := by
  match items with
  | [] => cases held
  | [first] => rw [only first List.mem_cons_self]
  | first :: second :: rest =>
    have same : first = second := by
      rw [only first (by simp), only second (by simp)]
    simp [same] at distinct

end Weaving
