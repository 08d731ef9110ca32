import Mathlib.Data.List.Basic
import Mathlib.Data.List.TakeDrop
import Mathlib.Data.List.TakeWhile
import Weaving.Json.Reader
import Weaving.Json.Writer

/-!
JSON text that is written can be read. A document is plain if it holds no doubles, nothing without a value
and no integer beyond 64 bits. The text of a plain document is cut into the tokens that it was written from,
whatever follows it (`scan?_write`), and the reader puts them together again, as long as lists and tables do
not lie too deep in each other (`foldlM_tokens`). So the document is read back (`Document.read?_toJson`).
-/

namespace Weaving

/-- A document with an exact text: without doubles, and with integers of 64 bits only, which may have a
sign or not. -/
inductive Document.Plain : Document → Prop where
  | null : Plain .null
  | bool (value : Bool) : Plain (.bool value)
  | int {value : Int} (low : -(Word.count 63 : Int) ≤ value) (high : value < Word.count 64) : Plain (.int value)
  | text (value : String) : Plain (.text value)
  | list {items : List Document} (each : ∀ item ∈ items, Plain item) : Plain (.list items)
  | table {entries : List (String × Document)} (each : ∀ entry ∈ entries, Plain entry.2) : Plain (.table entries)

namespace Json

/-! ## Integers -/

/-- The digits of a number, as they are read. -/
def digitsOf (n : Nat) : List Nat := (Nat.toDigits 10 n).map fun c => c.toNat - '0'.toNat

theorem digits?_toDigits (n : Nat) : Numeral.digits? (Nat.toDigits 10 n) = some (digitsOf n, []) := by
  have digit (c : Char) (held : c ∈ Nat.toDigits 10 n) : Decimal.digit? c = some (c.toNat - '0'.toNat) :=
    Decimal.digit?_of_isDigit (Nat.isDigit_of_mem_toDigits (by decide) (by decide) held)
  have all (c : Char) (held : c ∈ Nat.toDigits 10 n) : (Decimal.digit? c).isSome = true := by
    rw [digit c held, Option.isSome_some]
  have whole : (Nat.toDigits 10 n).span (fun c => (Decimal.digit? c).isSome) = (Nat.toDigits 10 n, []) := by
    rw [List.span_eq_takeWhile_dropWhile, List.takeWhile_eq_self_iff.mpr all, List.dropWhile_eq_nil_iff.mpr all]
  have values : (Nat.toDigits 10 n).filterMap Decimal.digit? = digitsOf n := by
    rw [List.filterMap_congr digit]
    exact congrFun List.filterMap_eq_map' _
  have there : (Nat.toDigits 10 n).isEmpty = false := by simp
  simp only [Numeral.digits?, whole, values, there]
  rfl

theorem foldl_digitsOf (n : Nat) : (digitsOf n).foldl (fun m d => 10 * m + d) 0 = n := by
  rw [digitsOf, List.foldl_map, ← Nat.ofDigitChars_eq_foldl]
  exact Nat.ofDigitChars_ten_toDigits

/-- No zero is written in front of other digits. -/
theorem head?_digitsOf_ne {n : Nat} (positive : 0 < n) : (digitsOf n).head? ≠ some 0 := by
  induction n using Nat.strongRecOn with
  | ind n ih =>
    unfold digitsOf
    rw [Nat.toDigits_eq_if (by decide)]
    split
    · rename_i small
      have value := Nat.toNat_digitChar_sub_48_of_lt_ten small
      simp only [List.map_cons, List.map_nil, List.head?_cons, ne_eq, Option.some.injEq]
      exact fun zero => positive.ne' (value.symm.trans zero)
    · rename_i large
      have before := ih (n / 10) (by omega) (by omega)
      have there : digitsOf (n / 10) ≠ [] := by simp [digitsOf]
      obtain ⟨first, rest, digits⟩ := List.exists_cons_of_ne_nil there
      rw [digits] at before
      rw [List.map_append, ← digitsOf, digits]
      exact before

theorem ofChars?_toDigits (n : Nat) :
    Numeral.ofChars? (Nat.toDigits 10 n) = some ⟨false, digitsOf n, none, none⟩ ∧
      Numeral.ofChars? ('-' :: Nat.toDigits 10 n) = some ⟨true, digitsOf n, none, none⟩ := by
  have minimal : ¬ ((digitsOf n).head? = some 0 ∧ (digitsOf n).length ≠ 1) := by
    rintro ⟨zero, long⟩
    rcases Nat.eq_zero_or_pos n with rfl | positive
    · exact long (by decide)
    · exact head?_digitsOf_ne positive zero
  have read := digits?_toDigits n
  refine ⟨?_, by simp [Numeral.ofChars?, read, minimal]⟩
  cases digits : Nat.toDigits 10 n with
  | nil => exact absurd digits Nat.toDigits_ne_nil
  | cons first rest =>
    have digit : first.isDigit = true :=
      Nat.isDigit_of_mem_toDigits (by decide) (by decide)
        (digits ▸ List.mem_cons_self : first ∈ Nat.toDigits 10 n)
    rw [digits] at read
    have unsigned : first ≠ '-' := by
      rintro rfl
      cases digit
    simp [Numeral.ofChars?, unsigned, read, minimal]

/-- The text of an integer is a numeral for it. -/
theorem ofChars?_integer {value : Int} (low : -(Word.count 63 : Int) ≤ value) (high : value < Word.count 64) :
    ∃ numeral, Numeral.ofChars? (integer value) = some numeral ∧ numeral.toDocument = .int value := by
  have magnitude : (digitsOf value.natAbs).foldl (fun m d => 10 * m + d) 0 = value.natAbs := foldl_digitsOf _
  unfold integer
  split
  · refine ⟨_, (ofChars?_toDigits _).2, ?_⟩
    have inside : 0 < value.natAbs ∧ value.natAbs ≤ Word.count 63 := by omega
    have signed : -(value.natAbs : Int) = value := by omega
    simp only [Numeral.toDocument, Numeral.toInt?, magnitude, if_true, if_pos inside, signed]
  · refine ⟨_, (ofChars?_toDigits _).1, ?_⟩
    have inside : value.natAbs < Word.count 64 := by omega
    have unsigned : (value.natAbs : Int) = value := by omega
    simp only [Numeral.toDocument, Numeral.toInt?, magnitude, Bool.false_eq_true, if_false, if_pos inside, unsigned]

theorem mem_integer {value : Int} {c : Char} (held : c ∈ integer value) : c = '-' ∨ c.isDigit = true := by
  have digit (within : c ∈ Nat.toDigits 10 value.natAbs) : c.isDigit = true :=
    Nat.isDigit_of_mem_toDigits (by decide) (by decide) within
  unfold integer at held
  split at held
  · exact (List.mem_cons.mp held).imp_right digit
  · exact .inr (digit held)

/-! ## Words -/

/-- What stands behind a word ends it. -/
def Ends (rest : List Char) : Prop := ∀ c ∈ rest.head?, endsWord c = true

theorem scan?_between (c : Char) (cs : List Char) :
    scan? .between (c :: cs) = (scan? (start c).2 cs).map ((start c).1.toList ++ ·) := by
  rw [scan?]

/-- A word is over where something ends it, and the scanner goes on from there. -/
theorem scan?_word_end {seen rest : List Char} (ends : Ends rest) :
    scan? (.word seen) rest = (word? seen.reverse).bind fun token => (scan? .between rest).map (token :: ·) := by
  cases rest with
  | nil => cases read : word? seen.reverse <;> simp [scan?, read]
  | cons c cs =>
    rw [scan?_between, scan?, if_pos (ends c rfl)]
    simp [Option.map_eq_bind, Option.bind_assoc]

/-- A word is scanned as a whole. -/
theorem scan?_word {seen word rest : List Char} (inside : ∀ c ∈ word, endsWord c = false) (ends : Ends rest) :
    scan? (.word seen) (word ++ rest) =
      (word? (seen.reverse ++ word)).bind fun token => (scan? .between rest).map (token :: ·) := by
  induction word generalizing seen with
  | nil => simpa using scan?_word_end ends
  | cons c word ih =>
    rw [List.cons_append, scan?, if_neg (by simp [inside c]), ih fun other held => inside other (.tail _ held)]
    simp

theorem start_of_not_endsWord {c : Char} (inside : endsWord c = false) : start c = (none, .word [c]) := by
  simp only [endsWord, Bool.or_eq_false_iff, decide_eq_false_iff_not] at inside
  obtain ⟨⟨blank, quote⟩, mark⟩ := inside
  have plain : punctuation? c = none := Option.isNone_iff_eq_none.mp (by simpa using mark)
  simp [start, blank, quote, plain]

/-- A word that means something is one token, whatever follows it. -/
theorem scan?_token {word rest : List Char} {token : Token} (means : word? word = some token) (there : word ≠ [])
    (inside : word.any endsWord = false) (ends : Ends rest) :
    scan? .between (word ++ rest) = (scan? .between rest).map (token :: ·) := by
  have each : ∀ c ∈ word, endsWord c = false := by simpa using inside
  obtain ⟨c, others, rfl⟩ := List.exists_cons_of_ne_nil there
  rw [List.cons_append, scan?_between, start_of_not_endsWord (each c (.head _)),
    scan?_word (fun other held => each other (.tail _ held)) ends]
  simp [means, Function.comp_def]

theorem word?_integer {value : Int} (low : -(Word.count 63 : Int) ≤ value) (high : value < Word.count 64) :
    word? (integer value) = some (.scalar (.int value)) := by
  obtain ⟨numeral, read, means⟩ := ofChars?_integer low high
  have other (name : String) (letter : name.toList.any (fun c => c ≠ '-' && !c.isDigit) = true) :
      String.ofList (integer value) ≠ name := by
    rintro rfl
    rw [String.toList_ofList, List.any_eq_true] at letter
    obtain ⟨c, held, isLetter⟩ := letter
    rcases mem_integer held with minus | isDigit
    · simp [minus] at isLetter
    · simp [isDigit] at isLetter
  unfold word?
  split
  · exact absurd ‹_› (other "null" (by decide))
  · exact absurd ‹_› (other "true" (by decide))
  · exact absurd ‹_› (other "false" (by decide))
  · rw [read, Option.map_some, means]

theorem not_isDigit_of_endsWord {c : Char} (ends : endsWord c = true) : c ≠ '-' ∧ c.isDigit = false := by
  unfold endsWord isBlank punctuation? at ends
  split at ends <;> simp_all
  rcases ends with (((rfl | rfl) | rfl) | rfl) | rfl <;> decide

theorem not_endsWord_integer (value : Int) : (integer value).any endsWord = false := by
  simp only [List.any_eq_false, Bool.not_eq_true]
  intro c held
  by_contra ends
  obtain ⟨sign, digit⟩ := not_isDigit_of_endsWord (Bool.not_eq_false _ ▸ ends)
  rcases mem_integer held with minus | isDigit
  · exact sign minus
  · rw [digit] at isDigit
    cases isDigit

/-! ## Strings -/

/-- How a character of a string is read: by its number, if it is written so. -/
def partOf (c : Char) : Part := if (escape c).length = 6 then .unit c.toNat else .char c

theorem hexDigit?_lowerHex (n : Nat) : hexDigit? (lowerHex n) = some (n % 16) := by
  have digit : ∀ d : Fin 16, hexDigit? (Nat.digitChar d) = some d.val := by decide
  exact digit ⟨n % 16, Nat.mod_lt n (by decide)⟩

/-- A character is scanned as one part. -/
theorem scan?_escape (parts : List Part) (c : Char) (rest : List Char) :
    scan? (.string parts) (escape c ++ rest) = scan? (.string (partOf c :: parts)) rest := by
  unfold partOf escape
  split
  case h_8 quote backslash _ _ _ _ _ =>
    split
    · rename_i control
      have number : 16 * (c.toNat / 16 % 16) + c.toNat % 16 = c.toNat := by omega
      have zero : hexDigit? '0' = some 0 := by decide
      simp [scan?, hexDigit?_lowerHex, zero, number]
    · rename_i printed
      rw [List.singleton_append, scan?, if_neg quote, if_neg backslash, if_neg printed, if_neg (by simp)]
  all_goals simp [scan?, escaped?]

/-- Only control characters are written by their numbers. -/
theorem control_of_numbered {c : Char} (numbered : (escape c).length = 6) : c.toNat < 0x20 := by
  unfold escape at numbered
  split at numbered
  case h_8 =>
    split at numbered
    · assumption
    · cases numbered
  all_goals cases numbered

/-- What was written is read. -/
theorem content?_partOf (cs : List Char) : Part.content? (cs.map partOf) = some cs := by
  induction cs with
  | nil => rfl
  | cons c cs ih =>
    rw [List.map_cons]
    by_cases numbered : (escape c).length = 6
    · have control := control_of_numbered numbered
      have low : Part.isLowSurrogate c.toNat = false := by simp [Part.isLowSurrogate]; omega
      have high : Part.isHighSurrogate c.toNat = false := by simp [Part.isHighSurrogate]; omega
      rw [show partOf c = .unit c.toNat from if_pos numbered, Part.content?.eq_def]
      simp [low, high, ih]
    · rw [show partOf c = .char c from if_neg numbered, Part.content?, ih, Option.map_some]

theorem scan?_string (parts : List Part) (cs rest : List Char) :
    scan? (.string parts) (cs.flatMap escape ++ rest) = scan? (.string ((cs.map partOf).reverse ++ parts)) rest := by
  induction cs generalizing parts with
  | nil => rfl
  | cons c cs ih => simp [scan?_escape, ih]

/-- A quoted text is one token. -/
theorem scan?_quoted (s : String) (rest : List Char) :
    scan? .between (quoted s ++ rest) = (scan? .between rest).map (.text (some s) :: ·) := by
  have opens : start '"' = (none, .string []) := by simp [start, isBlank]
  rw [quoted, List.cons_append, scan?_between, opens, List.append_assoc, scan?_string]
  simp [scan?, content?_partOf, Function.comp_def]

/-! ## Documents -/

mutual

/-- The tokens that the text of a document is cut into. -/
def tokens : Document → List Token
  | .text value => [.text (some value)]
  | .list [] => [.openList, .closeList]
  | .list (item :: items) => .openList :: (tokens item ++ itemTokens items)
  | .table [] => [.openTable, .closeTable]
  | .table ((key, document) :: entries) =>
    .openTable :: .text (some key) :: .colon :: (tokens document ++ entryTokens entries)
  | document => [.scalar document]

/-- The tokens of the items after the first, up to the end of the list. -/
def itemTokens : List Document → List Token
  | [] => [.closeList]
  | item :: items => .comma :: (tokens item ++ itemTokens items)

/-- The tokens of the entries after the first, up to the end of the table. -/
def entryTokens : List (String × Document) → List Token
  | [] => [.closeTable]
  | (key, document) :: entries => .comma :: .text (some key) :: .colon :: (tokens document ++ entryTokens entries)

end

/-- A mark is one token. -/
theorem scan?_mark {c : Char} {token : Token} (mark : start c = (some token, .between)) (rest : List Char) :
    scan? .between (c :: rest) = (scan? .between rest).map (token :: ·) := by
  rw [scan?_between, mark]
  rfl

theorem start_comma : start ',' = (some .comma, .between) := by simp [start, isBlank, punctuation?]

theorem start_colon : start ':' = (some .colon, .between) := by simp [start, isBlank, punctuation?]

theorem start_openList : start '[' = (some .openList, .between) := by simp [start, isBlank, punctuation?]

theorem start_closeList : start ']' = (some .closeList, .between) := by simp [start, isBlank, punctuation?]

theorem start_openTable : start '{' = (some .openTable, .between) := by simp [start, isBlank, punctuation?]

theorem start_closeTable : start '}' = (some .closeTable, .between) := by simp [start, isBlank, punctuation?]

theorem ends_cons {c : Char} (last : endsWord c = true) (rest : List Char) : Ends (c :: rest) := by
  rintro _ ⟨⟩
  exact last

theorem ends_writeItems (items : List Document) (rest : List Char) : Ends (writeItems items ++ rest) := by
  cases items <;> exact ends_cons (by decide) _

theorem ends_writeEntries (entries : List (String × Document)) (rest : List Char) :
    Ends (writeEntries entries ++ rest) := by
  cases entries <;> exact ends_cons (by decide) _

/-- The text of a document is cut into its tokens, whatever follows it. -/
def Scans (document : Document) : Prop :=
  ∀ rest, Ends rest → scan? .between (write document ++ rest) = (scan? .between rest).map (tokens document ++ ·)

theorem scan?_writeItems {items : List Document} (each : ∀ item ∈ items, Scans item) (rest : List Char) :
    scan? .between (writeItems items ++ rest) = (scan? .between rest).map (itemTokens items ++ ·) := by
  induction items with
  | nil => exact scan?_mark start_closeList rest
  | cons item items ih =>
    rw [writeItems, List.cons_append, scan?_mark start_comma, List.append_assoc,
      each item (.head _) _ (ends_writeItems items rest), ih fun other held => each other (.tail _ held)]
    simp [itemTokens, Function.comp_def]

theorem scan?_writeEntries {entries : List (String × Document)} (each : ∀ entry ∈ entries, Scans entry.2)
    (rest : List Char) :
    scan? .between (writeEntries entries ++ rest) = (scan? .between rest).map (entryTokens entries ++ ·) := by
  induction entries with
  | nil => exact scan?_mark start_closeTable rest
  | cons entry entries ih =>
    obtain ⟨key, document⟩ := entry
    rw [writeEntries, List.cons_append, scan?_mark start_comma, List.append_assoc, scan?_quoted, List.cons_append,
      scan?_mark start_colon, List.append_assoc, each (key, document) (.head _) _ (ends_writeEntries entries rest),
      ih fun other held => each other (.tail _ held)]
    simp [entryTokens, Function.comp_def]

/-- Plain documents are cut into the tokens that they were written from. -/
theorem scan?_write {document : Document} (plain : document.Plain) : Scans document := by
  induction plain with
  | null =>
    have means : word? "null".toList = some (.scalar .null) := rfl
    exact fun rest ends => scan?_token means (by decide) (by decide) ends
  | bool value =>
    cases value with
    | true =>
      have means : word? "true".toList = some (.scalar (.bool true)) := rfl
      exact fun rest ends => scan?_token means (by decide) (by decide) ends
    | false =>
      have means : word? "false".toList = some (.scalar (.bool false)) := rfl
      exact fun rest ends => scan?_token means (by decide) (by decide) ends
  | @int value low high =>
    have there : integer value ≠ [] := by
      unfold integer
      split <;> simp
    exact fun rest ends => scan?_token (word?_integer low high) there (not_endsWord_integer value) ends
  | text value => exact fun rest _ => scan?_quoted value rest
  | @list items _ each =>
    intro rest _
    cases items with
    | nil =>
      change scan? .between ('[' :: ']' :: rest) = _
      rw [scan?_mark start_openList, scan?_mark start_closeList, Option.map_map]
      rfl
    | cons item items =>
      rw [write, List.cons_append, scan?_mark start_openList, List.append_assoc,
        each item (.head _) _ (ends_writeItems items rest),
        scan?_writeItems (fun other held => each other (.tail _ held)) rest]
      simp [tokens, Function.comp_def]
  | @table entries _ each =>
    intro rest _
    cases entries with
    | nil =>
      change scan? .between ('{' :: '}' :: rest) = _
      rw [scan?_mark start_openTable, scan?_mark start_closeTable, Option.map_map]
      rfl
    | cons entry entries =>
      obtain ⟨key, document⟩ := entry
      rw [write, List.cons_append, scan?_mark start_openTable, List.append_assoc, scan?_quoted, List.cons_append,
        scan?_mark start_colon, List.append_assoc, each (key, document) (.head _) _ (ends_writeEntries entries rest),
        scan?_writeEntries (fun other held => each other (.tail _ held)) rest]
      simp [tokens, Function.comp_def]

/-! ## Reading -/

/-- A list or table below the depth limit keeps its value. -/
theorem close_of_shallow {stack : List Frame} (shallow : stack.length + 1 < depthLimit) (document : Document) :
    close stack document = document := if_pos shallow

/-- The tokens of a document, wherever a value may start, come to the document. -/
def Reads (document : Document) : Prop :=
  ∀ stack rest, stack.length + document.height < depthLimit →
    (tokens document ++ rest).foldlM step? (.value stack) = rest.foldlM step? (deliver document stack)

/-- The first item of a list is read as any other value. -/
theorem foldlM_firstItem (document : Document) (stack : List Frame) (rest : List Token) :
    (tokens document ++ rest).foldlM step? (.firstItem stack) =
      (tokens document ++ rest).foldlM step? (.value (.list [] :: stack)) := by
  unfold tokens
  split <;> rfl

theorem foldlM_itemTokens {items : List Document} (each : ∀ item ∈ items, Reads item) {stack : List Frame}
    (shallow : stack.length + 1 + Document.itemsHeight items < depthLimit) (held : List Document)
    (rest : List Token) :
    (itemTokens items ++ rest).foldlM step? (.nextItem held stack) =
      rest.foldlM step? (deliver (.list (held.reverse ++ items)) stack) := by
  induction items generalizing held with
  | nil =>
    simp only [Document.itemsHeight] at shallow
    simp [itemTokens, step?, close_of_shallow shallow]
  | cons item items ih =>
    simp only [Document.itemsHeight] at shallow
    have first := each item (.head _) (.list held :: stack) (itemTokens items ++ rest)
      (by rw [List.length_cons]; omega)
    have others := ih (fun other held => each other (.tail _ held)) (by omega) (item :: held)
    calc (itemTokens (item :: items) ++ rest).foldlM step? (.nextItem held stack)
      _ = (tokens item ++ (itemTokens items ++ rest)).foldlM step? (.value (.list held :: stack)) := by
        rw [← List.append_assoc]
        rfl
      _ = (itemTokens items ++ rest).foldlM step? (.nextItem (item :: held) stack) := first
      _ = rest.foldlM step? (deliver (.list (held.reverse ++ item :: items)) stack) := by
        rw [others, List.reverse_cons, List.append_assoc, List.singleton_append]

/-- Entries as the reader holds them, with keys that have content. -/
def keyed (entries : List (String × Document)) : List (Option String × Document) :=
  entries.map fun entry => (some entry.1, entry.2)

theorem keyed_reverse (entries : List (String × Document)) : (keyed entries).reverse = keyed entries.reverse :=
  List.map_reverse.symm

theorem tableOf_keyed (entries : List (String × Document)) : tableOf (keyed entries) = .table entries := by
  have all : (keyed entries).mapM (fun entry : Option String × Document => entry.1.map (·, entry.2)) =
      some entries := by
    induction entries with
    | nil => rfl
    | cons entry entries ih =>
      rw [keyed, List.map_cons, List.mapM_cons, ← keyed, ih]
      rfl
  unfold tableOf
  split
  · rename_i found isFound
    rw [Option.some.inj (all.symm.trans isFound)]
  · rename_i noneFound
    cases all.symm.trans noneFound

theorem foldlM_entryTokens {entries : List (String × Document)} (each : ∀ entry ∈ entries, Reads entry.2)
    {stack : List Frame} (shallow : stack.length + 1 + Document.entriesHeight entries < depthLimit)
    (held : List (String × Document)) (rest : List Token) :
    (entryTokens entries ++ rest).foldlM step? (.nextEntry (keyed held) stack) =
      rest.foldlM step? (deliver (.table (held.reverse ++ entries)) stack) := by
  induction entries generalizing held with
  | nil =>
    simp only [Document.entriesHeight] at shallow
    simp [entryTokens, step?, close_of_shallow shallow, keyed_reverse, tableOf_keyed]
  | cons entry entries ih =>
    obtain ⟨key, document⟩ := entry
    simp only [Document.entriesHeight] at shallow
    have first := each (key, document) (.head _) (.table (keyed held) (some key) :: stack)
      (entryTokens entries ++ rest) (by simp only [List.length_cons]; omega)
    have others := ih (fun other held => each other (.tail _ held)) (by omega) ((key, document) :: held)
    calc (entryTokens ((key, document) :: entries) ++ rest).foldlM step? (.nextEntry (keyed held) stack)
      _ = (tokens document ++ (entryTokens entries ++ rest)).foldlM step?
          (.value (.table (keyed held) (some key) :: stack)) := by
        rw [← List.append_assoc]
        rfl
      _ = (entryTokens entries ++ rest).foldlM step? (.nextEntry (keyed ((key, document) :: held)) stack) :=
        first
      _ = rest.foldlM step? (deliver (.table (held.reverse ++ (key, document) :: entries)) stack) := by
        rw [others, List.reverse_cons, List.append_assoc, List.singleton_append]

/-- The tokens of a plain document that does not lie too deep come to the document. -/
theorem foldlM_tokens {document : Document} (plain : document.Plain) : Reads document := by
  induction plain with
  | null | bool | int | text => exact fun _ _ _ => rfl
  | @list items _ each =>
    intro stack rest shallow
    cases items with
    | nil =>
      have closed := close_of_shallow (by simpa [Document.height, Document.itemsHeight] using shallow) (.list [])
      simp [tokens, step?, startValue?, closed]
    | cons item items =>
      simp only [Document.height, Document.itemsHeight] at shallow
      have below : stack.length + 1 + Document.itemsHeight items < depthLimit := by omega
      have first := each item (.head _) (.list [] :: stack) (itemTokens items ++ rest)
        (by rw [List.length_cons]; omega)
      calc (tokens (.list (item :: items)) ++ rest).foldlM step? (.value stack)
        _ = (tokens item ++ (itemTokens items ++ rest)).foldlM step? (.firstItem stack) := by
          rw [← List.append_assoc]
          rfl
        _ = (tokens item ++ (itemTokens items ++ rest)).foldlM step? (.value (.list [] :: stack)) :=
          foldlM_firstItem item stack _
        _ = (itemTokens items ++ rest).foldlM step? (.nextItem [item] stack) := first
        _ = rest.foldlM step? (deliver (.list (item :: items)) stack) :=
          foldlM_itemTokens (fun other held => each other (.tail _ held)) below [item] rest
  | @table entries _ each =>
    intro stack rest shallow
    cases entries with
    | nil =>
      have closed := close_of_shallow (by simpa [Document.height, Document.entriesHeight] using shallow) (.table [])
      simp [tokens, step?, startValue?, closed]
    | cons entry entries =>
      obtain ⟨key, document⟩ := entry
      simp only [Document.height, Document.entriesHeight] at shallow
      have below : stack.length + 1 + Document.entriesHeight entries < depthLimit := by omega
      have first := each (key, document) (.head _) (.table [] (some key) :: stack) (entryTokens entries ++ rest)
        (by simp only [List.length_cons]; omega)
      calc (tokens (.table ((key, document) :: entries)) ++ rest).foldlM step? (.value stack)
        _ = (tokens document ++ (entryTokens entries ++ rest)).foldlM step?
            (.value (.table [] (some key) :: stack)) := by
          rw [← List.append_assoc]
          rfl
        _ = (entryTokens entries ++ rest).foldlM step? (.nextEntry [(some key, document)] stack) := first
        _ = rest.foldlM step? (deliver (.table ((key, document) :: entries)) stack) :=
          foldlM_entryTokens (fun other held => each other (.tail _ held)) below [(key, document)] rest

end Json

/-- **What is written as JSON is read back**, if it is plain and not too deep. -/
theorem Document.read?_toJson {document : Document} (plain : document.Plain)
    (shallow : document.height < Json.depthLimit) : Json.read? document.toJson = some document := by
  have scanned := Json.scan?_write plain [] (by simp [Json.Ends])
  have read := Json.foldlM_tokens plain [] [] (by simpa using shallow)
  simp only [List.append_nil, Json.scan?] at scanned read
  simp [Json.read?, toJson, scanned, Json.ofTokens?, read, Json.deliver]

end Weaving
