import Mathlib.Data.List.Forall2
import Weaving.Proofs.Slices
import Weaving.Script.Meaning
import Weaving.Weaver.Activity

/-!
Templates are expanded in one pass. A template is cut at its placeholders in one way only (`Cut.unique`), and
what is written in their places is never looked at again: the text of a template is that of its cut, with what
the keys stand for between the parts (`render_fills`). What a key stands for is said here of
the names and numbers that may be keys, and the reader of keys comes to the same (`stands_iff`).
-/

namespace Weaving

namespace Template

/-! ## Cuts -/

/-- A placeholder with the text before it. The text has no opening brace, and the key no closing one. -/
@[ext] structure Part where
  text : List Char
  key : List Char
  text_plain : '{' ∉ text
  key_plain : '}' ∉ key

/-- A template in its parts, with the rest, where the first brace that opens is never closed. -/
@[ext] structure Cut where
  parts : List Part
  rest : List Char
  rest_open : ∀ before inside, rest = before ++ '{' :: inside → '{' ∉ before → '}' ∉ inside

namespace Part

/-- The key with its braces. -/
def placeholder (part : Part) : List Char := '{' :: (part.key ++ ['}'])

/-- A part as it stands in the template. -/
def written (part : Part) : List Char := part.text ++ part.placeholder

end Part

namespace Cut

/-- The template that was cut. -/
def written (cut : Cut) : List Char := cut.parts.flatMap Part.written ++ cut.rest

/-- The template with other texts for its placeholders, the first for the first. -/
def filled (cut : Cut) (texts : List (List Char)) : List Char :=
  (List.zipWith (fun part text => part.text ++ text) cut.parts texts).flatten ++ cut.rest

end Cut

/-- The parts and the rest as pieces. -/
def piecesOf (rest : List Char) : List Part → List Piece
  | [] => [.text rest]
  | part :: parts => .text part.text :: .placeholder part.key :: piecesOf rest parts

/-- The first placeholder of a template is cut off with the text before it. -/
theorem pieces_of_placeholder {before key after : List Char} (plain : '{' ∉ before) (closed : '}' ∉ key) :
    pieces (before ++ '{' :: (key ++ '}' :: after)) = .text before :: .placeholder key :: pieces after := by
  have opening : Text.splitFirst? '{' (before ++ '{' :: (key ++ '}' :: after)) =
      some (before, key ++ '}' :: after) := Text.splitFirst?_eq_some_iff.mpr ⟨rfl, plain⟩
  have closing : Text.splitFirst? '}' (key ++ '}' :: after) = some (key, after) :=
    Text.splitFirst?_eq_some_iff.mpr ⟨rfl, closed⟩
  rw [pieces]
  split
  · rename_i none
    cases opening.symm.trans none
  · rename_i found
    cases opening.symm.trans found
    split
    · rename_i none
      cases closing.symm.trans none
    · rename_i found
      cases closing.symm.trans found
      rfl

/-- Without a placeholder a template is one text. -/
theorem pieces_of_open {rest : List Char}
    (unclosed : ∀ before inside, rest = before ++ '{' :: inside → '{' ∉ before → '}' ∉ inside) :
    pieces rest = [.text rest] := by
  rw [pieces]
  split
  · rfl
  · rename_i found
    obtain ⟨shape, plain⟩ := Text.splitFirst?_eq_some_iff.mp found
    split
    · rfl
    · rename_i found
      obtain ⟨inside, -⟩ := Text.splitFirst?_eq_some_iff.mp found
      exact absurd (by simp [inside]) (unclosed _ _ shape plain)

/-- The parts of a template are found again, and so is the rest. -/
theorem pieces_written (cut : Cut) : pieces cut.written = piecesOf cut.rest cut.parts := by
  obtain ⟨parts, rest, rest_open⟩ := cut
  unfold Cut.written
  induction parts with
  | nil => exact pieces_of_open rest_open
  | cons part parts ih =>
    have shape : (part :: parts).flatMap Part.written ++ rest =
        part.text ++ '{' :: (part.key ++ '}' :: (parts.flatMap Part.written ++ rest)) := by
      simp [Part.written, Part.placeholder]
    dsimp only at ih ⊢
    rw [shape, pieces_of_placeholder part.text_plain part.key_plain, ih]
    rfl

theorem piecesOf_inj {first second : List Char} {parts others : List Part}
    (same : piecesOf first parts = piecesOf second others) : first = second ∧ parts = others := by
  induction parts generalizing others with
  | nil =>
    cases others with
    | nil => simpa [piecesOf] using same
    | cons other others => simp [piecesOf] at same
  | cons part parts ih =>
    cases others with
    | nil => simp [piecesOf] at same
    | cons other others =>
      simp only [piecesOf, List.cons.injEq, Piece.text.injEq, Piece.placeholder.injEq] at same
      obtain ⟨text, key, more⟩ := same
      obtain ⟨rest, parts⟩ := ih more
      exact ⟨rest, congrArg₂ List.cons (Part.ext text key) parts⟩

/-- A template is cut in one way only. -/
theorem Cut.unique {cut other : Cut} (same : cut.written = other.written) : cut = other := by
  have pieces : piecesOf cut.rest cut.parts = piecesOf other.rest other.parts := by
    rw [← pieces_written, ← pieces_written, same]
  obtain ⟨rest, parts⟩ := piecesOf_inj pieces
  exact Cut.ext parts rest

/-- Every template can be cut. -/
theorem exists_cut (template : List Char) : ∃ cut : Cut, cut.written = template := by
  fun_induction pieces template with
  | case1 cs opening =>
    refine ⟨⟨[], cs, fun before inside shape plain => ?_⟩, rfl⟩
    exact nomatch opening.symm.trans (Text.splitFirst?_eq_some_iff.mpr ⟨shape, plain⟩)
  | case2 cs first inside opening closing =>
    refine ⟨⟨[], cs, fun before others shape plain closed => ?_⟩, rfl⟩
    cases opening.symm.trans (Text.splitFirst?_eq_some_iff.mpr ⟨shape, plain⟩)
    obtain ⟨key, after, shape, absent⟩ := List.eq_append_cons_of_mem closed
    exact nomatch closing.symm.trans (Text.splitFirst?_eq_some_iff.mpr ⟨shape, absent⟩)
  | case3 cs first inside opening key after closing shorter least ih =>
    obtain ⟨shape, plain⟩ := Text.splitFirst?_eq_some_iff.mp opening
    obtain ⟨inner, closed⟩ := Text.splitFirst?_eq_some_iff.mp closing
    obtain ⟨cut, written⟩ := ih
    refine ⟨⟨⟨first, key, plain, closed⟩ :: cut.parts, cut.rest, cut.rest_open⟩, ?_⟩
    rw [shape, inner, ← written]
    simp [Cut.written, Part.written, Part.placeholder]

/-- Expanding puts the texts of the keys in the places of the placeholders. -/
theorem expand_written (value? : List Char → Option (List Char)) (cut : Cut) :
    expand value? cut.written =
      cut.filled (cut.parts.map fun part => (value? part.key).getD part.placeholder) := by
  rw [expand, pieces_written]
  obtain ⟨parts, rest, -⟩ := cut
  unfold Cut.filled
  induction parts with
  | nil => simp [piecesOf]
  | cons part parts ih =>
    simp only [piecesOf, List.flatMap_cons, ih]
    simp [Part.placeholder, Piece.written]

/-! ## Keys -/

/-- A key is the position of an argument: digits, maybe behind a plus sign, of a number of 64 bits. -/
def Position (key : List Char) (index : Nat) : Prop :=
  ∃ digits : List Char, (key = digits ∨ key = '+' :: digits) ∧ digits ≠ [] ∧
    (∀ c ∈ digits, c.isDigit = true) ∧ Nat.ofDigitChars 10 digits 0 = index ∧ index < Word.count 64

theorem position?_eq_some_iff {key : List Char} {index : Nat} :
    position? key = some index ↔ Position key index := by
  have reads (digits : List Char) :
      (if digits.isEmpty then none
        else (Decimal.natural? digits).filter (· ≤ Document.greatestWord)) = some index ↔
        digits ≠ [] ∧ (∀ c ∈ digits, c.isDigit = true) ∧ Nat.ofDigitChars 10 digits 0 = index ∧
          index < Word.count 64 := by
    have fits : index ≤ Document.greatestWord ↔ index < Word.count 64 := Nat.le_sub_one_iff_lt (Word.count_pos 64)
    cases digits with
    | nil => simp
    | cons c digits =>
      simp [Option.filter_eq_some_iff, Decimal.natural?_eq_some_iff, fits, and_assoc]
  unfold position? Position
  dsimp only
  split
  · rename_i digits
    rw [reads]
    constructor
    · intro facts
      exact ⟨digits, .inr rfl, facts⟩
    · rintro ⟨others, rfl | same, there, all, value⟩
      · exact nomatch all '+' (.head _)
      · cases same
        exact ⟨there, all, value⟩
  · rename_i unsigned
    rw [reads]
    constructor
    · intro facts
      exact ⟨key, .inl rfl, facts⟩
    · rintro ⟨digits, rfl | rfl, facts⟩
      · exact facts
      · exact absurd rfl (unsigned digits)

/-- The names that stand for the same in every script. -/
def names : List String := ["relation", "this", "result"]

/-- No name is a position. -/
theorem Position.other {key : List Char} {index : Nat} (position : Position key index) :
    String.ofList key ∉ names := by
  obtain ⟨digits, spelt, there, digit, -⟩ := position
  obtain ⟨first, others, rfl⟩ := List.exists_cons_of_ne_nil there
  have leads : first.isDigit = true := digit first (.head _)
  intro named
  have among : key = "relation".toList ∨ key = "this".toList ∨ key = "result".toList := by
    simpa [names, String.ext_iff] using named
  rcases spelt with rfl | rfl
  · rcases among with same | same | same <;> (cases same; exact absurd leads (by decide))
  · rcases among with same | same | same <;> cases same

section Keys

variable (context : Context) (vars : Variables) (relation : RelationClass)

/-- The text that stands for a key where a relation is in force. A name comes before a position, and a position
before a variable. What is none of these is left as it is written. -/
inductive Stands : List Char → List Char → Prop where
  | relation : Stands "relation".toList relation.name.toList
  | receiver {object : ObjectRef} (this : context.this = some object) :
    Stands "this".toList (Value.object object).display.toList
  | noReceiver (static : context.this = none) : Stands "this".toList "null".toList
  | result {value : Value} (known : context.result = some value) :
    Stands "result".toList value.display.toList
  | noResult (unknown : context.result = none) : Stands "result".toList "null".toList
  | argument {key : List Char} {index : Nat} {value : Value} (position : Position key index)
    (given : context.args[index]? = some value) : Stands key value.display.toList
  | noArgument {key : List Char} {index : Nat} (position : Position key index)
    (absent : context.args[index]? = none) : Stands key "null".toList
  | var {key : List Char} {value : Value} (other : String.ofList key ∉ names)
    (nowhere : ∀ index, ¬ Position key index) (assigned : vars.lookup (String.ofList key) = some value) :
    Stands key value.display.toList
  | unknown {key : List Char} (other : String.ofList key ∉ names) (nowhere : ∀ index, ¬ Position key index)
    (unassigned : vars.lookup (String.ofList key) = none) : Stands key ('{' :: (key ++ ['}']))

/-- What is no name is a position or a variable. -/
theorem keyValue?_of_other {key : List Char} (other : String.ofList key ∉ names) :
    keyValue? context vars relation key =
      match position? key with
      | some index => some (context.arg index)
      | none => vars.lookup (String.ofList key) := by
  unfold keyValue?
  split
  · rename_i same
    exact absurd (by simp [same, names]) other
  · rename_i same
    exact absurd (by simp [same, names]) other
  · rename_i same
    exact absurd (by simp [same, names]) other
  · rfl

/-- Every key stands for some text. -/
theorem exists_stands (key : List Char) : ∃ text, Stands context vars relation key text := by
  by_cases named : String.ofList key ∈ names
  · have among : key = "relation".toList ∨ key = "this".toList ∨ key = "result".toList := by
      simpa [names, String.ext_iff] using named
    rcases among with rfl | rfl | rfl
    · exact ⟨_, .relation⟩
    · cases this : context.this with
      | none => exact ⟨_, .noReceiver this⟩
      | some object => exact ⟨_, .receiver this⟩
    · cases result : context.result with
      | none => exact ⟨_, .noResult result⟩
      | some value => exact ⟨_, .result result⟩
  · by_cases somewhere : ∃ index, Position key index
    · obtain ⟨index, position⟩ := somewhere
      cases given : context.args[index]? with
      | none => exact ⟨_, .noArgument position given⟩
      | some value => exact ⟨_, .argument position given⟩
    · have nowhere : ∀ index, ¬ Position key index := not_exists.mp somewhere
      cases assigned : vars.lookup (String.ofList key) with
      | none => exact ⟨_, .unknown named nowhere assigned⟩
      | some value => exact ⟨_, .var named nowhere assigned⟩

/-- A key stands for what its value is written as, or for itself in its braces. -/
theorem stands_iff {key text : List Char} :
    Stands context vars relation key text ↔
      ((keyValue? context vars relation key).map (·.display.toList)).getD ('{' :: (key ++ ['}'])) = text := by
  have only {text : List Char} (stands : Stands context vars relation key text) :
      ((keyValue? context vars relation key).map (·.display.toList)).getD ('{' :: (key ++ ['}'])) = text := by
    have unread (nowhere : ∀ index, ¬ Position key index) : position? key = none :=
      Option.eq_none_iff_forall_ne_some.mpr fun index read => nowhere index (position?_eq_some_iff.mp read)
    cases stands with
    | relation => rfl
    | receiver this => simp [keyValue?, this]
    | noReceiver static => simp [keyValue?, static, Value.display]
    | result known => simp [keyValue?, known]
    | noResult unknown => simp [keyValue?, unknown, Value.display]
    | argument position given =>
      simp [keyValue?_of_other _ _ _ position.other, position?_eq_some_iff.mpr position, Context.arg, given]
    | noArgument position absent =>
      simp [keyValue?_of_other _ _ _ position.other, position?_eq_some_iff.mpr position, Context.arg, absent,
        Value.display]
    | var other nowhere assigned =>
      simp [keyValue?_of_other _ _ _ other, unread nowhere, assigned]
    | unknown other nowhere unassigned =>
      simp [keyValue?_of_other _ _ _ other, unread nowhere, unassigned]
  constructor
  · exact only
  · rintro rfl
    obtain ⟨text, stands⟩ := exists_stands context vars relation key
    rw [only stands]
    exact stands

end Keys

/-! ## Slices -/

/-- All that is taken out of a template is a slice of it, in the order of the template: of each placeholder the
text before it, the whole of it, and its key between the braces, and then the rest, which falls into two slices
at a brace that is not closed. -/
structure Cut.Slices (cut : Cut) (template : String) : Prop where
  text : ∀ before part after, cut.parts = before ++ part :: after →
    Text.StandsAt template (String.ofList part.text) (Text.byteCount (before.flatMap Part.written))
  placeholder : ∀ before part after, cut.parts = before ++ part :: after →
    Text.StandsAt template (String.ofList part.placeholder)
      (Text.byteCount (before.flatMap Part.written) + Text.byteCount part.text)
  key : ∀ before part after, cut.parts = before ++ part :: after →
    Text.StandsAt template (String.ofList part.key)
      (Text.byteCount (before.flatMap Part.written) + Text.byteCount part.text + 1)
  rest : ∀ before after, cut.rest = before ++ after →
    Text.StandsAt template (String.ofList before) (Text.byteCount (cut.parts.flatMap Part.written)) ∧
      Text.StandsAt template (String.ofList after)
        (Text.byteCount (cut.parts.flatMap Part.written) + Text.byteCount before)

theorem Cut.slices {cut : Cut} {template : String} (written : cut.written = template.toList) :
    cut.Slices template := by
  have brace : Text.byteCount ['{'] = 1 := Text.byteCount_singleton '{'
  have around {before after : List Part} {part : Part} (parts : cut.parts = before ++ part :: after) :
      template.toList = before.flatMap Part.written ++ part.written ++
        (after.flatMap Part.written ++ cut.rest) := by
    rw [← written, Cut.written, parts]
    simp
  refine ⟨?_, ?_, ?_, ?_⟩
  · intro before part after parts
    have slice : template.toList = before.flatMap Part.written ++ part.text ++
        (part.placeholder ++ (after.flatMap Part.written ++ cut.rest)) := by
      rw [around parts]
      simp [Part.written]
    exact Text.standsAt_of_toList slice
  · intro before part after parts
    have slice : template.toList = before.flatMap Part.written ++ part.text ++ part.placeholder ++
        (after.flatMap Part.written ++ cut.rest) := by
      rw [around parts]
      simp [Part.written]
    rw [← Text.byteCount_append]
    exact Text.standsAt_of_toList slice
  · intro before part after parts
    have slice : template.toList = before.flatMap Part.written ++ part.text ++ ['{'] ++ part.key ++
        ('}' :: (after.flatMap Part.written ++ cut.rest)) := by
      rw [around parts]
      simp [Part.written, Part.placeholder]
    rw [← Text.byteCount_append, ← brace, ← Text.byteCount_append]
    exact Text.standsAt_of_toList slice
  · intro before after rest
    have slice : template.toList = cut.parts.flatMap Part.written ++ before ++ after := by
      rw [← written, Cut.written, rest, List.append_assoc]
    refine ⟨Text.standsAt_of_toList slice, ?_⟩
    rw [← Text.byteCount_append]
    exact Text.standsAt_of_toList (slice.trans (List.append_nil _).symm)

/-! ## Rendering -/

/-- The text of a template is that of its cut, with what the keys stand for. -/
theorem exists_texts (context : Context) (vars : Variables) (relation : RelationClass) {cut : Cut}
    {template : String} (written : cut.written = template.toList) :
    ∃ texts, List.Forall₂ (Stands context vars relation) (cut.parts.map (·.key)) texts ∧
      render context vars template relation = String.ofList (cut.filled texts) := by
  refine ⟨cut.parts.map fun part =>
    ((keyValue? context vars relation part.key).map (·.display.toList)).getD part.placeholder, ?_, ?_⟩
  · rw [List.forall₂_map_left_iff, List.forall₂_map_right_iff, List.forall₂_same]
    exact fun part _ => (stands_iff context vars relation).mpr rfl
  · rw [render, ← written, expand_written]

/-- **A template is expanded in one pass.** It is cut at its placeholders in one way, at places between its
characters. Its text is made of the parts of that cut and, in their order, of what the keys stand for where it is
rendered: nothing is lost or repeated, and what stands for a key is not looked at again. Nothing changes when no
brace opens. -/
theorem render_fills (template : String) :
    ∃ cut : Cut, cut.written = template.toList ∧
      (∀ other : Cut, other.written = template.toList → other = cut) ∧ cut.Slices template ∧
      ∀ (context : Context) (vars : Variables) (call : Call → Attempt Value) (join : Activity.Join)
        (visits : Visits) (machine : Machine),
        ∃ texts, List.Forall₂ (Stands context vars machine.chain.current) (cut.parts.map (·.key)) texts ∧
          ((Activity.perform call join (Script.render context template vars)).run visits).run machine =
            ((.ok (String.ofList (cut.filled texts), vars), visits), machine) ∧
          ('{' ∉ template.toList → String.ofList (cut.filled texts) = template) := by
  obtain ⟨cut, written⟩ := exists_cut template.toList
  refine ⟨cut, written, fun other same => Cut.unique (same.trans written.symm), Cut.slices written, ?_⟩
  intro context vars call join visits machine
  obtain ⟨texts, stands, rendered⟩ := exists_texts context vars machine.chain.current written
  refine ⟨texts, stands, ?_, ?_⟩
  · rw [← rendered]
    rfl
  · intro plain
    have uncut : cut.parts = [] := by
      cases parts : cut.parts with
      | nil => rfl
      | cons part others =>
        have opens : '{' ∈ cut.written := by
          rw [Cut.written, parts]
          simp [Part.written, Part.placeholder]
        exact absurd (written ▸ opens) plain
    have whole : cut.filled texts = template.toList := by
      rw [← written, Cut.filled, Cut.written, uncut]
      rfl
    rw [whole, String.ofList_toList]

end Template

end Weaving
