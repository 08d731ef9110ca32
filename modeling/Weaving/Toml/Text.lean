import Weaving.Json.Token

/-!
Blanks, line ends, comments and quoted strings of TOML text. Each reader takes something off the front
of a text and gives the rest.
-/

namespace Weaving.Toml

def isBlank (c : Char) : Bool := c = ' ' || c = '\t'

/-- Characters that may stand in a comment or a string: no control characters but the tab. -/
def isPrintable (c : Char) : Bool := c = '\t' || (0x20 ≤ c.toNat && c.toNat ≠ 0x7f)

def skipBlanks (cs : List Char) : List Char := cs.dropWhile isBlank

/-- What follows the end of a line, if the text starts with one. -/
def lineEnd? : List Char → Option (List Char)
  | '\n' :: cs => some cs
  | '\r' :: '\n' :: cs => some cs
  | _ => none

/-- Skips blanks, comments and the ends of lines. -/
def skipSpace (inComment : Bool) : List Char → List Char
  | [] => []
  | '\r' :: '\n' :: cs => skipSpace false cs
  | c :: cs =>
    if c = '\n' then skipSpace false cs
    else if inComment && isPrintable c then skipSpace true cs
    else if !inComment && isBlank c then skipSpace false cs
    else if !inComment && c = '#' then skipSpace true cs
    else c :: cs

/-- The rest of a line holds nothing but blanks and a comment. -/
def finishLine? (cs : List Char) : Option (List Char) :=
  let cs := match skipBlanks cs with
    | '#' :: comment => comment.dropWhile isPrintable
    | rest => rest
  if cs.isEmpty then some [] else lineEnd? cs

/-! ## Strings -/

/-- What follows a backslash, with a rest that is shorter. -/
abbrev Escape (cs : List Char) := Char × { rest : List Char // rest.length < cs.length }

/-- The character with a code, unless it is half of a surrogate pair or beyond the last one. -/
def charOf? (code : Nat) : Option Char := if code.isValidChar then some (Char.ofNat code) else none

/-- The number that hexadecimal digits write. -/
def hex? (digits : List Char) : Option Nat :=
  digits.foldlM (fun code c => (Json.hexDigit? c).map (16 * code + ·)) 0

/-- Less than the whole of a list is behind its first item. -/
theorem length_drop_lt {α : Type} {a : α} (count : Nat) (as : List α) :
    (as.drop count).length < (a :: as).length := by
  rw [List.length_drop, List.length_cons]
  omega

def escape? : (cs : List Char) → Option (Escape cs)
  | [] => none
  | c :: cs =>
    let coded (count : Nat) : Option (Escape (c :: cs)) :=
      if cs.length < count then none
      else do
        let meant ← hex? (cs.take count) >>= charOf?
        some (meant, ⟨cs.drop count, length_drop_lt count cs⟩)
    if c = 'u' then coded 4
    else if c = 'U' then coded 8
    else if c = '/' then none
    else (Json.escaped? c).map fun meant => (meant, ⟨cs, Nat.lt_succ_self cs.length⟩)

/-- The content of a string between quotes, whose opening quote has been taken. -/
def basic? (cs : List Char) : Option (List Char × List Char) :=
  match cs with
  | [] => none
  | c :: cs =>
    if c = '"' then some ([], cs)
    else if c = '\\' then
      match escape? cs with
      | none => none
      | some (meant, ⟨rest, _shorter⟩) =>
        (basic? rest).map fun (content, rest) => (meant :: content, rest)
    else if isPrintable c then (basic? cs).map fun (content, rest) => (c :: content, rest)
    else none
termination_by cs.length
decreasing_by
  · exact Nat.lt_succ_of_lt _shorter
  · exact Nat.lt_succ_self cs.length

/-- The content of a string between apostrophes, whose opening apostrophe has been taken. -/
def literal? : List Char → Option (List Char × List Char)
  | [] => none
  | c :: cs =>
    if c = '\'' then some ([], cs)
    else if isPrintable c then (literal? cs).map fun (content, rest) => (c :: content, rest)
    else none

/-- The end of a string of several lines: three quotes, with up to two more before them that belong to
the string. -/
def closing? (quote : Char) (cs : List Char) : Option (List Char × List Char) :=
  let count := min 5 (cs.takeWhile (· = quote)).length
  if 3 ≤ count then some (List.replicate (count - 3) quote, cs.drop count) else none

/-- The content of a string of several lines. Behind a backslash at the end of a line, `trimming` leaves
out blanks and line ends up to the next other character. -/
def multiline? (trimming : Bool) (cs : List Char) : Option (List Char × List Char) :=
  match closing? '"' cs with
  | some result => some result
  | none =>
    match cs with
    | [] => none
    | '\r' :: '\n' :: cs =>
      (multiline? trimming cs).map fun (content, rest) =>
        (if trimming then content else '\n' :: content, rest)
    | c :: cs =>
      if trimming && (isBlank c || c = '\n') then multiline? true cs
      else if c = '\\' then
        match escape? cs with
        | none => if (lineEnd? (skipBlanks cs)).isSome then multiline? true cs else none
        | some (meant, ⟨rest, _shorter⟩) =>
          (multiline? false rest).map fun (content, rest) => (meant :: content, rest)
      else if isPrintable c || c = '\n' then
        (multiline? false cs).map fun (content, rest) => (c :: content, rest)
      else none
termination_by cs.length
decreasing_by
  · exact Nat.lt_succ_of_lt (Nat.lt_succ_self cs.length)
  · exact Nat.lt_succ_self cs.length
  · exact Nat.lt_succ_self cs.length
  · exact Nat.lt_succ_of_lt _shorter
  · exact Nat.lt_succ_self cs.length

/-- The content of a string of several lines between apostrophes. -/
def multilineLiteral? (cs : List Char) : Option (List Char × List Char) :=
  match closing? '\'' cs with
  | some result => some result
  | none =>
    match cs with
    | [] => none
    | '\r' :: '\n' :: cs =>
      (multilineLiteral? cs).map fun (content, rest) => ('\n' :: content, rest)
    | c :: cs =>
      if isPrintable c || c = '\n' then
        (multilineLiteral? cs).map fun (content, rest) => (c :: content, rest)
      else none
termination_by cs.length
decreasing_by
  · exact Nat.lt_succ_of_lt (Nat.lt_succ_self cs.length)
  · exact Nat.lt_succ_self cs.length

/-- A line end directly behind the opening quotes is no part of the string. -/
def skipFirstLineEnd (cs : List Char) : List Char := (lineEnd? cs).getD cs

/-- A string in any of its four forms. -/
def string? : List Char → Option (List Char × List Char)
  | '"' :: '"' :: '"' :: cs => multiline? false (skipFirstLineEnd cs)
  | '"' :: cs => basic? cs
  | '\'' :: '\'' :: '\'' :: cs => multilineLiteral? (skipFirstLineEnd cs)
  | '\'' :: cs => literal? cs
  | _ => none

end Weaving.Toml
