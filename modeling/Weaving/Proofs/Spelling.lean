import Mathlib.Data.List.Basic
import Weaving.Pattern.Lexer

/-!
The spelling of tokens. A token is cut off a text just if it is the longest of all tokens whose text stands
there (`token?_eq_some_iff`), and none is cut off just if none stands there (`token?_eq_none_iff`). Which texts
are words is said by their characters, without the reader.

A text is read as a list of tokens wherever it stands (`Reads`): texts are put together at blanks, and at
tokens that do not go on in what follows them.
-/

namespace Weaving.Pattern

/-! ## Words -/

/-- What follows the first character of a word: letters, digits and underscores, and then more of them, at least
one, behind each hyphen. -/
def IsTail (cs : List Char) : Prop :=
  ∃ (run : List Char) (runs : List (List Char)), (∀ c ∈ run, isWordChar c = true) ∧
    (∀ other ∈ runs, other ≠ [] ∧ ∀ c ∈ other, isWordChar c = true) ∧ cs = run ++ runs.flatMap ('-' :: ·)

def IsWord (cs : List Char) : Prop :=
  ∃ first tail, cs = first :: tail ∧ startsWord first = true ∧ IsTail tail

/-- The tokens that a text may hold: every mark, and every word that is spelt like one. -/
def Token.Spelt : Token → Prop
  | .word name => IsWord name.toList
  | _ => True

/-- A word goes on with a character that stands before others. -/
def GoesOn (c : Char) (cs : List Char) : Prop :=
  isWordChar c = true ∨ c = '-' ∧ ∃ d ∈ cs.head?, isWordChar d = true

theorem wordTail_of_goesOn {c : Char} {cs : List Char} (on : GoesOn c cs) :
    wordTail (c :: cs) = (c :: (wordTail cs).1, (wordTail cs).2) := by
  rw [wordTail, if_pos (by simpa [GoesOn, Option.any_eq_true] using on)]

theorem wordTail_of_stops {c : Char} {cs : List Char} (stops : ¬ GoesOn c cs) :
    wordTail (c :: cs) = ([], c :: cs) := by
  rw [wordTail, if_neg (by simpa [GoesOn, Option.any_eq_true] using stops)]

theorem GoesOn.append {c : Char} {cs : List Char} (on : GoesOn c cs) (more : List Char) : GoesOn c (cs ++ more) := by
  rcases on with char | ⟨hyphen, d, first, char⟩
  · exact .inl char
  · cases cs with
    | nil => cases first
    | cons => exact .inr ⟨hyphen, d, first, char⟩

/-- A word that was read to its end goes on with what more of it follows. -/
theorem wordTail_append_of_whole {cs : List Char} (whole : (wordTail cs).2 = []) (more : List Char) :
    wordTail (cs ++ more) = (cs ++ (wordTail more).1, (wordTail more).2) := by
  induction cs with
  | nil => rfl
  | cons c cs ih =>
    by_cases on : GoesOn c cs
    · rw [wordTail_of_goesOn on] at whole
      rw [List.cons_append, wordTail_of_goesOn (on.append more), ih whole]
      rfl
    · rw [wordTail_of_stops on] at whole
      cases whole

/-- What was read of a word is read to its end. -/
theorem wordTail_fst (cs : List Char) : (wordTail (wordTail cs).1).2 = [] := by
  induction cs with
  | nil => rfl
  | cons c cs ih =>
    by_cases on : GoesOn c cs
    · have still : GoesOn c (wordTail cs).1 := by
        rcases on with char | ⟨hyphen, d, first, char⟩
        · exact .inl char
        · cases cs with
          | nil => cases first
          | cons d' cs =>
            cases first
            refine .inr ⟨hyphen, d, ?_, char⟩
            rw [wordTail_of_goesOn (.inl char)]
            rfl
      rw [wordTail_of_goesOn on, wordTail_of_goesOn still, ih]
    · rw [wordTail_of_stops on]
      rfl

/-- A word does not go on in what is left behind it. -/
theorem wordTail_snd (cs : List Char) : (wordTail (wordTail cs).2).1 = [] := by
  induction cs with
  | nil => rfl
  | cons c cs ih =>
    by_cases on : GoesOn c cs
    · rw [wordTail_of_goesOn on]
      exact ih
    · rw [wordTail_of_stops on, wordTail_of_stops on]

theorem isTail_nil : IsTail [] := ⟨[], [], nofun, nofun, rfl⟩

theorem isTail_cons_iff {c : Char} {cs : List Char} : IsTail (c :: cs) ↔ GoesOn c cs ∧ IsTail cs := by
  constructor
  · rintro ⟨run, runs, chars, others, shape⟩
    cases run with
    | cons d run =>
      cases shape
      have inside := List.forall_mem_cons.mp chars
      exact ⟨.inl inside.1, run, runs, inside.2, others, rfl⟩
    | nil =>
      cases runs with
      | nil => cases shape
      | cons other runs =>
        obtain ⟨⟨there, inside⟩, further⟩ := List.forall_mem_cons.mp others
        obtain ⟨d, other, rfl⟩ := List.exists_cons_of_ne_nil there
        cases shape
        exact ⟨.inr ⟨rfl, d, rfl, inside d (.head _)⟩, d :: other, runs, inside, further, rfl⟩
  · rintro ⟨char | ⟨rfl, d, first, char⟩, run, runs, chars, others, rfl⟩
    · exact ⟨c :: run, runs, List.forall_mem_cons.mpr ⟨char, chars⟩, others, rfl⟩
    · have there : run ≠ [] := by
        rintro rfl
        cases runs with
        | nil => cases first
        | cons other runs =>
          cases first
          exact absurd char (by decide)
      exact ⟨[], run :: runs, nofun, List.forall_mem_cons.mpr ⟨⟨there, chars⟩, others⟩, rfl⟩

/-- The reader of words goes through what follows the first character of one, and through nothing else. -/
theorem isTail_iff {cs : List Char} : IsTail cs ↔ (wordTail cs).2 = [] := by
  induction cs with
  | nil => exact ⟨fun _ => rfl, fun _ => isTail_nil⟩
  | cons c cs ih =>
    rw [isTail_cons_iff, ih]
    by_cases on : GoesOn c cs
    · simp [wordTail_of_goesOn on, on]
    · simp [wordTail_of_stops on, on]

/-! ## Tokens -/

theorem token?_of_startsWord {c : Char} {rest : List Char} (starts : startsWord c = true) :
    token? (c :: rest) = some (.word (String.ofList (c :: (wordTail rest).1)), (wordTail rest).2) := by
  unfold token?
  split
  case h_8 =>
    rename_i same
    cases same
    rw [if_pos starts]
  case h_9 same => cases same
  all_goals
    rename_i same
    cases same
    exact absurd starts (by decide)

/-- A token whose text ends where it is read: what follows cannot belong to it. -/
def Token.EndsBefore (rest : List Char) : Token → Prop
  | .dot => rest.head? ≠ some '.'
  | .word _ => (wordTail rest).1 = []
  | _ => True

/-- A token is cut off its own text and what follows it. -/
theorem token?_text_append {token : Token} {rest : List Char} (spelt : token.Spelt)
    (ends : token.EndsBefore rest) : token? (token.text.toList ++ rest) = some (token, rest) := by
  cases token with
  | word name =>
    obtain ⟨first, tail, shape, starts, isTail⟩ := spelt
    have whole := isTail_iff.mp isTail
    change (wordTail rest).1 = [] at ends
    have left : (wordTail rest).2 = rest := by simpa [ends] using wordTail_append rest
    rw [Token.text, shape, List.cons_append, token?_of_startsWord starts, wordTail_append_of_whole whole, ends,
      List.append_nil, ← shape, String.ofList_toList, left]
  | dot =>
    cases rest with
    | nil => rfl
    | cons c rest =>
      have other : c ≠ '.' := by simpa [Token.EndsBefore] using ends
      exact token?.eq_3 _ fun _ same => other (List.cons.inj same).1
  | _ => rfl

/-- What is cut off is a token, and it does not go on in what is left. -/
theorem spelt_of_token? {cs rest : List Char} {token : Token} (found : token? cs = some (token, rest)) :
    token.Spelt ∧ token.EndsBefore rest := by
  unfold token? at found
  split at found
  case h_3 other =>
    cases found
    refine ⟨trivial, fun first => ?_⟩
    obtain ⟨tail, rfl⟩ := List.head?_eq_some_iff.mp first
    exact other tail rfl
  case h_8 =>
    split at found
    · rename_i starts
      cases found
      exact ⟨⟨_, _, String.toList_ofList, starts, isTail_iff.mpr (wordTail_fst _)⟩, wordTail_snd _⟩
    · cases found
  case h_9 => cases found
  all_goals
    cases found
    exact ⟨trivial, trivial⟩

/-- Where the text of a token stands, a token is cut off that is as long at least. -/
theorem exists_of_spelt {token : Token} (spelt : token.Spelt) (rest : List Char) :
    ∃ found left, token? (token.text.toList ++ rest) = some (found, left) ∧
      token.text.toList.length ≤ found.text.toList.length := by
  cases token with
  | word name =>
    obtain ⟨first, tail, shape, starts, isTail⟩ := spelt
    have text : (Token.word name).text.toList = first :: tail := shape
    have read := wordTail_append_of_whole (isTail_iff.mp isTail) rest
    rw [text]
    refine ⟨_, _, token?_of_startsWord starts, ?_⟩
    change (first :: tail).length ≤ (String.ofList (first :: (wordTail (tail ++ rest)).1)).toList.length
    rw [read, String.toList_ofList]
    simp
  | dot =>
    by_cases doubled : rest.head? = some '.'
    · obtain ⟨tail, rfl⟩ := List.head?_eq_some_iff.mp doubled
      exact ⟨.ellipsis, tail, rfl, by decide⟩
    · exact ⟨.dot, rest, token?_text_append trivial doubled, Nat.le_refl _⟩
  | _ => exact ⟨_, rest, rfl, Nat.le_refl _⟩

/-- The text of a token is that token alone. -/
theorem token?_text {token : Token} (spelt : token.Spelt) : token? token.text.toList = some (token, []) := by
  have ends : token.EndsBefore [] := by cases token <;> simp [Token.EndsBefore, wordTail]
  simpa using token?_text_append spelt ends

/-- Tokens are told apart by their texts. -/
theorem Token.eq_of_text_eq {token other : Token} (spelt : token.Spelt) (others : other.Spelt)
    (same : token.text = other.text) : token = other := by
  have found := (token?_text spelt).symm.trans (same ▸ token?_text others)
  exact congrArg Prod.fst (Option.some.inj found)

/-- A token is the longest of all those whose text stands at the front. -/
structure Longest (cs : List Char) (token : Token) (rest : List Char) : Prop where
  spelt : token.Spelt
  front : token.text.toList ++ rest = cs
  longest : ∀ other : Token, other.Spelt → other.text.toList <+: cs →
    other.text.toList.length ≤ token.text.toList.length

/-- There is one longest token at most, and it is the one that is cut off. -/
theorem token?_eq_some_iff {cs rest : List Char} {token : Token} :
    token? cs = some (token, rest) ↔ Longest cs token rest := by
  constructor
  · intro found
    refine ⟨(spelt_of_token? found).1, text_append_of_token? found, ?_⟩
    rintro other spelt ⟨left, rfl⟩
    obtain ⟨longer, _, again, atLeast⟩ := exists_of_spelt spelt left
    cases found.symm.trans again
    exact atLeast
  · rintro ⟨spelt, rfl, longest⟩
    obtain ⟨found, left, cut, atLeast⟩ := exists_of_spelt spelt rest
    have front := text_append_of_token? cut
    have atMost := longest found (spelt_of_token? cut).1 ⟨left, front⟩
    obtain ⟨texts, rests⟩ := List.append_inj front (Nat.le_antisymm atMost atLeast)
    obtain rfl := Token.eq_of_text_eq (spelt_of_token? cut).1 spelt (String.toList_inj.mp texts)
    rw [cut, rests]

/-- Nothing is cut off just if no token stands at the front. -/
theorem token?_eq_none_iff {cs : List Char} :
    token? cs = none ↔ ∀ token : Token, token.Spelt → ¬ token.text.toList <+: cs := by
  constructor
  · rintro none token spelt ⟨rest, rfl⟩
    obtain ⟨_, _, found, -⟩ := exists_of_spelt spelt rest
    exact nomatch none.symm.trans found
  · intro nothing
    cases found : token? cs with
    | none => rfl
    | some cut =>
      obtain ⟨token, rest⟩ := cut
      exact absurd ⟨rest, text_append_of_token? found⟩ (nothing token (spelt_of_token? found).1)

/-! ## Texts -/

theorem token?_of_isBlank {c : Char} (blank : isBlank c = true) (cs : List Char) : token? (c :: cs) = none := by
  simp only [isBlank, Bool.or_eq_true, decide_eq_true_eq] at blank
  rcases blank with ((rfl | rfl) | rfl) | rfl <;> rfl

theorem lex_of_isBlank {c : Char} (blank : isBlank c = true) (offset : Nat) (cs : List Char) :
    lex offset (c :: cs) = lex (offset + 1) cs := by
  rw [lex, if_pos blank]

theorem lex_of_token? {cs rest : List Char} {token : Token} (found : token? cs = some (token, rest)) (offset : Nat) :
    lex offset cs = (lex (offset + token.text.utf8ByteSize) rest).map (⟨token, offset⟩ :: ·) := by
  cases cs with
  | nil => cases found
  | cons c cs =>
    have visible : ¬ isBlank c = true := fun blank => nomatch (token?_of_isBlank blank cs).symm.trans found
    rw [lex, if_neg visible]
    split
    · rename_i none
      exact nomatch none.symm.trans found
    · rename_i again
      cases again.symm.trans found
      rfl

/-- A text is read as these tokens, whatever the place is where it starts. -/
inductive Reads : List Char → List Token → Prop where
  | done : Reads [] []
  | blank {c : Char} {cs : List Char} {tokens : List Token} (blank : isBlank c = true) (more : Reads cs tokens) :
    Reads (c :: cs) tokens
  | token {cs rest : List Char} {token : Token} {tokens : List Token} (found : token? cs = some (token, rest))
    (more : Reads rest tokens) : Reads cs (token :: tokens)

theorem Reads.lex {cs : List Char} {tokens : List Token} (reads : Reads cs tokens) (offset : Nat) :
    ∃ lexemes, lex offset cs = .ok lexemes ∧ lexemes.map (·.token) = tokens := by
  induction reads generalizing offset with
  | done => exact ⟨[], by rw [Pattern.lex], rfl⟩
  | blank blank more ih =>
    rw [lex_of_isBlank blank]
    exact ih (offset + 1)
  | token found more ih =>
    rename_i token _
    obtain ⟨lexemes, cut, spelt⟩ := ih (offset + token.text.utf8ByteSize)
    refine ⟨⟨token, offset⟩ :: lexemes, ?_, by rw [List.map_cons, spelt]⟩
    rw [lex_of_token? found, cut]
    rfl

theorem reads_of_lex {offset : Nat} {cs : List Char} {lexemes : List Lexeme} (cut : lex offset cs = .ok lexemes) :
    Reads cs (lexemes.map (·.token)) := by
  fun_induction lex offset cs generalizing lexemes with
  | case1 => cases cut; exact .done
  | case2 offset c rest blank ih => exact .blank blank (ih cut)
  | case3 => cases cut
  | case4 offset c rest visible token left found shorter ih =>
    cases more : lex (offset + token.text.utf8ByteSize) left with
    | error error => simp [more, Except.map] at cut
    | ok others =>
      rw [more] at cut
      cases cut
      exact .token found (ih more)

/-- A text is read in one way. -/
theorem Reads.unique {cs : List Char} {tokens others : List Token} (reads : Reads cs tokens)
    (again : Reads cs others) : tokens = others := by
  obtain ⟨lexemes, cut, rfl⟩ := reads.lex 0
  obtain ⟨more, cut', rfl⟩ := again.lex 0
  cases cut.symm.trans cut'
  rfl

theorem Reads.of_blank {c : Char} {cs : List Char} {tokens : List Token} (blank : isBlank c = true)
    (reads : Reads (c :: cs) tokens) : Reads cs tokens := by
  cases reads with
  | blank _ more => exact more
  | token found _ => exact nomatch (token?_of_isBlank blank cs).symm.trans found

theorem Reads.of_token {cs rest : List Char} {token : Token} {tokens : List Token}
    (found : token? cs = some (token, rest)) (reads : Reads cs tokens) :
    ∃ more, tokens = token :: more ∧ Reads rest more := by
  cases reads with
  | done => cases found
  | blank blank _ => exact nomatch (token?_of_isBlank blank _).symm.trans found
  | token again more =>
    cases found.symm.trans again
    exact ⟨_, rfl, more⟩

theorem Reads.spelt {cs : List Char} {tokens : List Token} (reads : Reads cs tokens) :
    ∀ token ∈ tokens, token.Spelt := by
  induction reads with
  | done => exact nofun
  | blank blank more ih => exact ih
  | token found more ih => exact List.forall_mem_cons.mpr ⟨(spelt_of_token? found).1, ih⟩

/-- No token goes on behind a blank. -/
theorem Token.EndsBefore.append_blank {token : Token} {rest : List Char} (ends : token.EndsBefore rest)
    (more : List Char) : token.EndsBefore (rest ++ ' ' :: more) := by
  have blank : ¬ GoesOn ' ' more := by
    rintro (char | ⟨hyphen, -⟩)
    · exact absurd char (by decide)
    · cases hyphen
  cases token with
  | word name =>
    change (wordTail rest).1 = [] at ends
    change (wordTail (rest ++ ' ' :: more)).1 = []
    cases rest with
    | nil => exact congrArg Prod.fst (wordTail_of_stops blank)
    | cons c rest =>
      have stops : ¬ GoesOn c (rest ++ ' ' :: more) := by
        rintro (char | ⟨hyphen, d, first, char⟩)
        · rw [wordTail_of_goesOn (.inl char)] at ends
          cases ends
        · cases rest with
          | nil =>
            cases first
            exact absurd char (by decide)
          | cons other rest =>
            have on : GoesOn c (other :: rest) := .inr ⟨hyphen, d, first, char⟩
            rw [wordTail_of_goesOn on] at ends
            cases ends
      exact congrArg Prod.fst (wordTail_of_stops stops)
  | dot =>
    cases rest with
    | nil => simp [EndsBefore]
    | cons c rest => exact ends
  | _ => trivial

/-- A blank may stand between two texts. -/
theorem Reads.append {cs rest : List Char} {tokens more : List Token} (reads : Reads cs tokens)
    (others : Reads rest more) : Reads (cs ++ ' ' :: rest) (tokens ++ more) := by
  induction reads with
  | done => exact .blank rfl others
  | blank blank _ ih => exact .blank blank ih
  | token found _ ih =>
    obtain ⟨spelt, ends⟩ := spelt_of_token? found
    rw [← text_append_of_token? found, List.append_assoc]
    exact .token (token?_text_append spelt (ends.append_blank rest)) ih

/-- What stands behind a blank is read for itself. -/
theorem Reads.of_append {cs rest : List Char} {tokens all : List Token} (reads : Reads cs tokens)
    (whole : Reads (cs ++ ' ' :: rest) all) : ∃ more, all = tokens ++ more ∧ Reads rest more := by
  induction reads generalizing all with
  | done => exact ⟨all, rfl, whole.of_blank rfl⟩
  | blank blank _ ih => exact ih (whole.of_blank blank)
  | token found _ ih =>
    obtain ⟨spelt, ends⟩ := spelt_of_token? found
    rw [← text_append_of_token? found, List.append_assoc] at whole
    obtain ⟨others, rfl, left⟩ := whole.of_token (token?_text_append spelt (ends.append_blank rest))
    obtain ⟨more, rfl, behind⟩ := ih left
    exact ⟨more, rfl, behind⟩

/-- Tokens with a blank between any two are read again. -/
theorem reads_intercalate {tokens : List Token} (spelt : ∀ token ∈ tokens, token.Spelt) :
    Reads (" ".intercalate (tokens.map (·.text))).toList tokens := by
  have alone (token : Token) (spelt : token.Spelt) : Reads token.text.toList [token] :=
    .token (token?_text spelt) .done
  induction tokens with
  | nil => exact .done
  | cons token tokens ih =>
    obtain ⟨first, others⟩ := List.forall_mem_cons.mp spelt
    cases tokens with
    | nil =>
      rw [List.map_singleton, String.intercalate_singleton]
      exact alone token first
    | cons next tokens =>
      rw [List.map_cons, List.map_cons, String.intercalate_cons_cons, ← List.map_cons, String.toList_append,
        String.toList_append, List.append_assoc]
      exact (alone token first).append (ih others)

end Weaving.Pattern
