/-!
Cutting text at a separator.
-/

namespace Weaving.Text

/-- The pieces between the separators, in order; a text without separator is one piece. -/
def splitOn (separator : Char) : List Char → List (List Char)
  | [] => [[]]
  | c :: cs =>
    match splitOn separator cs with
    | [] => [[c]]
    | piece :: pieces =>
      if c = separator then [] :: piece :: pieces else (c :: piece) :: pieces

/-- The pieces joined by a separator. -/
def joinWith (separator : List Char) : List (List Char) → List Char
  | [] => []
  | [piece] => piece
  | piece :: pieces => piece ++ separator ++ joinWith separator pieces

/-- What stands before and after the first separator. -/
def splitFirst? (separator : Char) : List Char → Option (List Char × List Char)
  | [] => none
  | c :: cs =>
    if c = separator then some ([], cs)
    else (splitFirst? separator cs).map fun (before, after) => (c :: before, after)

/-- What stands before and after the last separator. -/
def splitLast? (separator : Char) : List Char → Option (List Char × List Char)
  | [] => none
  | c :: cs =>
    match splitLast? separator cs with
    | some (before, after) => some (c :: before, after)
    | none => if c = separator then some ([], cs) else none

theorem splitOn_ne_nil (separator : Char) (cs : List Char) : splitOn separator cs ≠ [] := by
  induction cs with
  | nil => simp [splitOn]
  | cons c cs ih =>
    rw [splitOn]
    split
    · simp
    · split <;> simp

/-- Cutting loses nothing but the separators. -/
theorem joinWith_splitOn (separator : Char) (cs : List Char) :
    joinWith [separator] (splitOn separator cs) = cs := by
  induction cs with
  | nil => rfl
  | cons c cs ih =>
    rw [splitOn]
    cases pieces : splitOn separator cs with
    | nil => exact absurd pieces (splitOn_ne_nil separator cs)
    | cons piece others =>
      rw [pieces] at ih
      by_cases same : c = separator
      · simp [same, joinWith, ih]
      · simp only [same, ↓reduceIte]
        cases others <;> simp_all [joinWith]

/-- The first separator and its two sides make up the text, and none precedes it. -/
theorem splitFirst?_eq_some_iff {separator : Char} {cs before after : List Char} :
    splitFirst? separator cs = some (before, after) ↔
      cs = before ++ separator :: after ∧ separator ∉ before := by
  induction cs generalizing before with
  | nil => simp [splitFirst?]
  | cons c cs ih =>
    rw [splitFirst?]
    cases before with
    | nil =>
      by_cases same : c = separator
      · simp [same, eq_comm]
      · simp [same]
    | cons head before =>
      by_cases same : c = separator
      · simp only [same, ↓reduceIte, Option.some.injEq, Prod.mk.injEq, reduceCtorEq, false_and,
          List.cons_append, List.cons.injEq, List.mem_cons, not_or, false_iff, not_and]
        exact fun eq other => absurd eq.1 other
      · simp only [same, ↓reduceIte, Option.map_eq_some_iff, Prod.mk.injEq, Prod.exists,
          List.cons.injEq, List.cons_append, List.mem_cons, not_or]
        constructor
        · rintro ⟨first, last, found, ⟨rfl, rfl⟩, rfl⟩
          have split := ih.mp found
          exact ⟨⟨rfl, split.1⟩, Ne.symm same, split.2⟩
        · rintro ⟨⟨rfl, eq⟩, _, absent⟩
          exact ⟨before, after, ih.mpr ⟨eq, absent⟩, ⟨rfl, rfl⟩, rfl⟩

/-- Only a text without separator has no last one. -/
theorem splitLast?_eq_none_iff {separator : Char} {cs : List Char} :
    splitLast? separator cs = none ↔ separator ∉ cs := by
  induction cs with
  | nil => simp [splitLast?]
  | cons c cs ih =>
    rw [splitLast?]
    cases found : splitLast? separator cs with
    | some sides =>
      have present : separator ∈ cs :=
        Classical.byContradiction fun absent => by simp [ih.mpr absent] at found
      simp [present]
    | none =>
      have absent := ih.mp found
      by_cases same : c = separator
      · simp [same]
      · simp [same, absent, Ne.symm same]

/-- The last separator and its two sides make up the text, and none follows it. -/
theorem splitLast?_eq_some_iff {separator : Char} {cs before after : List Char} :
    splitLast? separator cs = some (before, after) ↔
      cs = before ++ separator :: after ∧ separator ∉ after := by
  induction cs generalizing before after with
  | nil => simp [splitLast?]
  | cons c cs ih =>
    rw [splitLast?]
    cases found : splitLast? separator cs with
    | some sides =>
      obtain ⟨first, last⟩ := sides
      have split := ih.mp found
      cases before with
      | nil =>
        simp only [Option.some.injEq, Prod.mk.injEq, reduceCtorEq, false_and, List.nil_append,
          List.cons.injEq, false_iff, not_and, Classical.not_not]
        rintro ⟨_, rfl⟩
        simp [split.1]
      | cons head before =>
        have same := @ih before after
        rw [found] at same
        simp only [Option.some.injEq, Prod.mk.injEq, List.cons.injEq, List.cons_append] at same ⊢
        rw [and_assoc, same, and_assoc]
    | none =>
      have absent := splitLast?_eq_none_iff.mp found
      cases before with
      | nil =>
        by_cases same : c = separator
        · subst same
          simp only [↓reduceIte, Option.some.injEq, Prod.mk.injEq, true_and, List.nil_append,
            List.cons.injEq]
          exact ⟨fun eq => ⟨eq, eq ▸ absent⟩, And.left⟩
        · simp [same]
      | cons head before =>
        have inside : cs = before ++ separator :: after → False :=
          fun eq => absent (by simp [eq])
        simp only [List.cons_append, List.cons.injEq]
        split
        · simp only [Option.some.injEq, Prod.mk.injEq, reduceCtorEq, false_and, false_iff, not_and]
          exact fun eq => (inside eq.2).elim
        · simp only [reduceCtorEq, false_iff, not_and]
          exact fun eq => (inside eq.2).elim

end Weaving.Text
