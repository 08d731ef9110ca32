import Weaving.Json.Number

/-!
The tokens of JSON text. The scanner takes one character at a time; what it has seen of an unfinished
word or string is its mode. Between tokens only blanks may stand.
-/

namespace Weaving.Json

/-- A token. A string that holds half of a surrogate pair has no content. -/
inductive Token where
  | openList
  | closeList
  | openTable
  | closeTable
  | colon
  | comma
  | text (content : Option String)
  | scalar (value : Document)

/-- A part of a string literal: a character, or a 16-bit unit that was written by its number. -/
inductive Part where
  | char (c : Char)
  | unit (code : Nat)

namespace Part

def isHighSurrogate (code : Nat) : Bool := 0xD800 ≤ code && code ≤ 0xDBFF

def isLowSurrogate (code : Nat) : Bool := 0xDC00 ≤ code && code ≤ 0xDFFF

/-- The content of a string literal. Two units that form a surrogate pair are one character; half of a
pair is none. -/
def content? : List Part → Option (List Char)
  | [] => some []
  | .char c :: parts => (content? parts).map (c :: ·)
  | .unit code :: parts =>
    if isLowSurrogate code then none
    else if isHighSurrogate code then
      match parts with
      | .unit low :: rest =>
        if isLowSurrogate low then
          (content? rest).map (Char.ofNat (0x10000 + (code - 0xD800) * 0x400 + (low - 0xDC00)) :: ·)
        else none
      | _ => none
    else (content? parts).map (Char.ofNat code :: ·)

end Part

/-- What the scanner is in the middle of. Parts already seen are kept in reverse. -/
inductive Mode where
  | between
  | word (seen : List Char)
  | string (parts : List Part)
  | escape (parts : List Part)
  | unit (parts : List Part) (code : Nat) (missing : Nat)

def isBlank (c : Char) : Bool := c = ' ' || c = '\t' || c = '\n' || c = '\r'

/-- The characters that are tokens on their own. -/
def punctuation? : Char → Option Token
  | '[' => some .openList
  | ']' => some .closeList
  | '{' => some .openTable
  | '}' => some .closeTable
  | ':' => some .colon
  | ',' => some .comma
  | _ => none

/-- The characters that end a word. -/
def endsWord (c : Char) : Bool := isBlank c || c = '"' || (punctuation? c).isSome

/-- A character between tokens: the token it is, and the mode after it. -/
def start (c : Char) : Option Token × Mode :=
  if isBlank c then (none, .between)
  else if c = '"' then (none, .string [])
  else match punctuation? c with
    | some token => (some token, .between)
    | none => (none, .word [c])

/-- A word is a constant or a number. -/
def word? (cs : List Char) : Option Token :=
  match String.ofList cs with
  | "null" => some (.scalar .null)
  | "true" => some (.scalar (.bool true))
  | "false" => some (.scalar (.bool false))
  | _ => (Numeral.ofChars? cs).map fun n => .scalar n.toDocument

/-- The characters that one letter after a backslash stands for. -/
def escaped? : Char → Option Char
  | '"' => some '"'
  | '\\' => some '\\'
  | '/' => some '/'
  | 'b' => some '\x08'
  | 'f' => some '\x0c'
  | 'n' => some '\n'
  | 'r' => some '\r'
  | 't' => some '\t'
  | _ => none

def hexDigit? (c : Char) : Option Nat :=
  if '0' ≤ c ∧ c ≤ '9' then some (c.toNat - '0'.toNat)
  else if 'a' ≤ c ∧ c ≤ 'f' then some (c.toNat - 'a'.toNat + 10)
  else if 'A' ≤ c ∧ c ≤ 'F' then some (c.toNat - 'A'.toNat + 10)
  else none

/-- The tokens of a text, from a given mode on. -/
def scan? : Mode → List Char → Option (List Token)
  | .between, [] => some []
  | .word seen, [] => (word? seen.reverse).map fun token => [token]
  | _, [] => none
  | .between, c :: cs =>
    let (token, mode) := start c
    (scan? mode cs).map (token.toList ++ ·)
  | .word seen, c :: cs =>
    if endsWord c then do
      let word ← word? seen.reverse
      let (token, mode) := start c
      let tokens ← scan? mode cs
      some (word :: (token.toList ++ tokens))
    else scan? (.word (c :: seen)) cs
  | .string parts, c :: cs =>
    if c = '"' then
      (scan? .between cs).map (.text ((Part.content? parts.reverse).map String.ofList) :: ·)
    else if c = '\\' then scan? (.escape parts) cs
    else if c.toNat < 0x20 then none
    else scan? (.string (.char c :: parts)) cs
  | .escape parts, c :: cs =>
    if c = 'u' then scan? (.unit parts 0 4) cs
    else match escaped? c with
      | some meant => scan? (.string (.char meant :: parts)) cs
      | none => none
  | .unit parts code missing, c :: cs =>
    match hexDigit? c with
    | none => none
    | some digit =>
      let code := 16 * code + digit
      if missing ≤ 1 then scan? (.string (.unit code :: parts)) cs
      else scan? (.unit parts code (missing - 1)) cs

end Weaving.Json
