import Weaving.Proofs.Slices
import Weaving.Proofs.Spelling

/-!
Cutting a text into tokens loses nothing. The lexemes of a text are slices of it, one behind the other, each the
longest token at its place, and outside of them there are blanks only (`Lossless`). Where a text cannot be cut,
this holds up to the first character that is no blank and starts no token (`faithful_tokenize`).
-/

namespace Weaving

namespace Text

theorem byteCount_pos {cs : List Char} (there : cs ≠ []) : 0 < byteCount cs := by
  rw [byteCount, Nat.pos_iff_ne_zero]
  intro zero
  exact there (by simpa using String.utf8ByteSize_eq_zero_iff.mp zero)

/-- A place between characters cuts a text in one way. -/
theorem eq_of_byteCount_eq {before other after others : List Char}
    (same : before ++ after = other ++ others) (place : byteCount before = byteCount other) : before = other := by
  have end_nil {first more : List Char} (sum : byteCount first = byteCount (first ++ more)) : more = [] := by
    by_contra there
    have positive := byteCount_pos there
    rw [byteCount_append] at sum
    omega
  rcases List.append_eq_append_iff.mp same with ⟨more, rfl, -⟩ | ⟨more, rfl, -⟩
  · rw [end_nil place, List.append_nil]
  · rw [end_nil place.symm, List.append_nil]

end Text

namespace Pattern

open Text (byteCount byteCount_nil byteCount_append byteCount_toList StandsAt)

/-- Lexemes are all that stands between two places of a text, but for the blanks. -/
structure Lossless (source : String) (start stop : Nat) (lexemes : List Lexeme) : Prop where
  ascending : lexemes.Pairwise fun first second => first.stop ≤ second.start
  within : ∀ lexeme ∈ lexemes, start ≤ lexeme.start ∧ lexeme.start < lexeme.stop ∧ lexeme.stop ≤ stop
  slices : ∀ lexeme ∈ lexemes, StandsAt source lexeme.token.text lexeme.start
  longest : ∀ lexeme ∈ lexemes, ∃ before after rest, source.toList = before ++ after ∧
    byteCount before = lexeme.start ∧ Longest after lexeme.token rest
  gaps : ∀ before c after, source.toList = before ++ c :: after → start ≤ byteCount before →
    byteCount before < stop →
      isBlank c = true ∨ ∃ lexeme ∈ lexemes, lexeme.start ≤ byteCount before ∧ byteCount before < lexeme.stop

section Steps

variable {source : String} {front : List Char} {stop : Nat} {lexemes : List Lexeme}

theorem lossless_nil (start : Nat) : Lossless source start start [] where
  ascending := .nil
  within := nofun
  slices := nofun
  longest := nofun
  gaps := by
    intro before c after _ behind ahead
    omega

/-- A blank more belongs to no lexeme. -/
theorem Lossless.blank {c : Char} {after : List Char} (parts : source.toList = front ++ c :: after)
    (blank : isBlank c = true) (more : Lossless source (byteCount front + 1) stop lexemes) :
    Lossless source (byteCount front) stop lexemes where
  ascending := more.ascending
  within := by
    intro lexeme held
    obtain ⟨behind, long, ahead⟩ := more.within lexeme held
    exact ⟨by omega, long, ahead⟩
  slices := more.slices
  longest := more.longest
  gaps := by
    intro before other others parts' behind ahead
    by_cases here : byteCount front = byteCount before
    · have shape := parts.symm.trans parts'
      obtain rfl := Text.eq_of_byteCount_eq shape here
      cases List.append_cancel_left shape
      exact .inl blank
    · exact more.gaps before other others parts' (by omega) ahead

/-- A token more is one lexeme more. -/
theorem Lossless.token {cs rest : List Char} {token : Token} (parts : source.toList = front ++ cs)
    (found : token? cs = some (token, rest)) (room : byteCount front + token.text.utf8ByteSize ≤ stop)
    (more : Lossless source (byteCount front + token.text.utf8ByteSize) stop lexemes) :
    Lossless source (byteCount front) stop (⟨token, byteCount front⟩ :: lexemes) where
  ascending := List.pairwise_cons.mpr ⟨fun lexeme held => (more.within lexeme held).1, more.ascending⟩
  within := by
    have there : token.text.toList ≠ [] := by
      intro nothing
      have shorter := length_lt_of_token? found
      have whole := text_append_of_token? found
      rw [nothing, List.nil_append] at whole
      rw [whole] at shorter
      exact absurd shorter (Nat.lt_irrefl _)
    have size := Text.byteCount_pos there
    rw [Text.byteCount_toList] at size
    refine List.forall_mem_cons.mpr ⟨⟨Nat.le_refl _, ?_, room⟩, fun lexeme held => ?_⟩
    · exact Nat.lt_add_of_pos_right size
    · obtain ⟨behind, long, ahead⟩ := more.within lexeme held
      exact ⟨by omega, long, ahead⟩
  slices := by
    refine List.forall_mem_cons.mpr ⟨?_, more.slices⟩
    have slice : source.toList = front ++ token.text.toList ++ rest := by
      rw [parts, List.append_assoc, text_append_of_token? found]
    have stands := Text.standsAt_of_toList slice
    rwa [String.ofList_toList] at stands
  longest := List.forall_mem_cons.mpr
    ⟨⟨front, cs, rest, parts, rfl, token?_eq_some_iff.mp found⟩, more.longest⟩
  gaps := by
    intro before c after shape behind ahead
    by_cases inside : byteCount before < byteCount front + token.text.utf8ByteSize
    · exact .inr ⟨_, .head _, behind, inside⟩
    · rcases more.gaps before c after shape (by omega) ahead with blank | ⟨lexeme, held, spans⟩
      · exact .inl blank
      · exact .inr ⟨lexeme, .tail _ held, spans⟩

end Steps

/-- What comes of cutting a text from a place on: all of the rest, or all up to a character that is no blank and
that no token starts with. -/
def Faithful (source : String) (start : Nat) : Except PatternError (List Lexeme) → Prop
  | .ok lexemes => Lossless source start source.utf8ByteSize lexemes
  | .error error => ∃ lexemes before c after, source.toList = before ++ c :: after ∧
      error = ⟨.unexpectedCharacter c, byteCount before⟩ ∧ start ≤ byteCount before ∧
      Lossless source start (byteCount before) lexemes ∧ isBlank c = false ∧
      ∀ token : Token, token.Spelt → ¬ token.text.toList <+: c :: after

theorem Faithful.blank {source : String} {front after : List Char} {c : Char}
    {result : Except PatternError (List Lexeme)} (parts : source.toList = front ++ c :: after)
    (blank : isBlank c = true) (more : Faithful source (byteCount front + 1) result) :
    Faithful source (byteCount front) result := by
  cases result with
  | ok lexemes => exact Lossless.blank parts blank more
  | error error =>
    obtain ⟨lexemes, before, d, others, shape, offset, behind, lossless, stuck⟩ := more
    exact ⟨lexemes, before, d, others, shape, offset, by omega, .blank parts blank lossless, stuck⟩

theorem Faithful.token {source : String} {front cs rest : List Char} {token : Token}
    {result : Except PatternError (List Lexeme)} (parts : source.toList = front ++ cs)
    (found : token? cs = some (token, rest))
    (more : Faithful source (byteCount front + token.text.utf8ByteSize) result) :
    Faithful source (byteCount front) (result.map (⟨token, byteCount front⟩ :: ·)) := by
  cases result with
  | ok lexemes =>
    have whole : source.toList = front ++ (token.text.toList ++ rest) := by
      rw [text_append_of_token? found, parts]
    have size : source.utf8ByteSize = byteCount front + (token.text.utf8ByteSize + byteCount rest) := by
      rw [← byteCount_toList, whole, byteCount_append, byteCount_append, byteCount_toList]
    exact Lossless.token parts found (by omega) more
  | error error =>
    obtain ⟨lexemes, before, d, others, shape, offset, behind, lossless, stuck⟩ := more
    exact ⟨_, before, d, others, shape, offset, by omega, .token parts found behind lossless, stuck⟩

theorem byteCount_of_isBlank {c : Char} (blank : isBlank c = true) : byteCount [c] = 1 := by
  simp only [isBlank, Bool.or_eq_true, decide_eq_true_eq] at blank
  rcases blank with ((rfl | rfl) | rfl) | rfl <;> rfl

theorem faithful_lex {source : String} {front cs : List Char} (parts : source.toList = front ++ cs) :
    Faithful source (byteCount front) (lex (byteCount front) cs) := by
  generalize place : byteCount front = offset
  fun_induction lex offset cs generalizing front with
  | case1 offset =>
    have whole : source.utf8ByteSize = offset := by
      rw [← place, ← byteCount_toList, parts, List.append_nil]
    change Lossless source offset source.utf8ByteSize []
    rw [whole]
    exact lossless_nil offset
  | case2 offset c rest blank ih =>
    subst place
    have behind : source.toList = (front ++ [c]) ++ rest := by rw [parts, List.append_assoc, List.singleton_append]
    have place : byteCount (front ++ [c]) = byteCount front + 1 := by
      rw [byteCount_append, byteCount_of_isBlank blank]
    exact Faithful.blank parts blank (ih behind place)
  | case3 offset c rest visible none =>
    subst place
    exact ⟨[], front, c, rest, parts, rfl, Nat.le_refl _, lossless_nil _, Bool.eq_false_iff.mpr visible,
      token?_eq_none_iff.mp none⟩
  | case4 offset c rest visible token left found shorter ih =>
    subst place
    have behind : source.toList = (front ++ token.text.toList) ++ left := by
      rw [parts, List.append_assoc, text_append_of_token? found]
    have place : byteCount (front ++ token.text.toList) = byteCount front + token.text.utf8ByteSize := by
      rw [byteCount_append, byteCount_toList]
    exact Faithful.token parts found (ih behind place)

/-- The tokens of a text are all of it but the blanks, or all that stands before the first character that no token
starts with. -/
theorem faithful_tokenize (source : String) : Faithful source 0 (tokenize source) := by
  have parts : source.toList = [] ++ source.toList := rfl
  have faithful := faithful_lex parts
  rwa [byteCount_nil] at faithful

end Pattern

end Weaving
