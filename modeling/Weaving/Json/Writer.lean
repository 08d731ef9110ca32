import Weaving.Decimal.Layout
import Weaving.Document

/-!
Writing JSON text: without blanks, or with one item to a line and two more blanks of indentation for
each level.
-/

namespace Weaving.Json

/-- Numbers are written with an exponent below `1e-5` and from `1e16` on, and whole ones keep `.0`;
infinities and NaN have no form of their own. -/
def numberStyle : Decimal.Style :=
  { tie := .toEven
    positional := some (-5, 16)
    keepPoint := true
    nan := "null"
    infinity := "null"
    negativeInfinity := "null" }

def lowerHex (n : Nat) : Char := Nat.digitChar (n % 16)

/-- A character inside a string. Control characters are escaped, by a letter where there is one. -/
def escape (c : Char) : List Char :=
  match c with
  | '"' => ['\\', '"']
  | '\\' => ['\\', '\\']
  | '\x08' => ['\\', 'b']
  | '\t' => ['\\', 't']
  | '\n' => ['\\', 'n']
  | '\x0c' => ['\\', 'f']
  | '\r' => ['\\', 'r']
  | _ =>
    if c.toNat < 0x20 then ['\\', 'u', '0', '0', lowerHex (c.toNat / 16), lowerHex c.toNat] else [c]

def quoted (s : String) : List Char := '"' :: (s.toList.flatMap escape ++ ['"'])

/-- An integer in decimal. -/
def integer (n : Int) : List Char :=
  if n < 0 then '-' :: Nat.toDigits 10 n.natAbs else Nat.toDigits 10 n.natAbs

mutual

/-- The text of a document without blanks. -/
def write : Document → List Char
  | .null | .unreadable => "null".toList
  | .bool true => "true".toList
  | .bool false => "false".toList
  | .int n => integer n
  | .float x => (numberStyle.write x).toList
  | .text s => quoted s
  | .list [] => ['[', ']']
  | .list (item :: items) => '[' :: (write item ++ writeItems items)
  | .table [] => ['{', '}']
  | .table ((key, document) :: entries) =>
    '{' :: (quoted key ++ ':' :: (write document ++ writeEntries entries))

/-- The items after the first, up to the end of the list. -/
def writeItems : List Document → List Char
  | [] => [']']
  | item :: items => ',' :: (write item ++ writeItems items)

/-- The entries after the first, up to the end of the table. -/
def writeEntries : List (String × Document) → List Char
  | [] => ['}']
  | (key, document) :: entries =>
    ',' :: (quoted key ++ ':' :: (write document ++ writeEntries entries))

end

def line (level : Nat) : List Char := '\n' :: List.replicate (2 * level) ' '

mutual

/-- The text of a document at a level of indentation, with one item to a line. -/
def pretty (level : Nat) : Document → List Char
  | .list (item :: items) =>
    '[' :: (line (level + 1) ++ pretty (level + 1) item ++ prettyItems level items)
  | .table ((key, document) :: entries) =>
    '{' :: (line (level + 1) ++ quoted key ++ ':' :: ' ' ::
      (pretty (level + 1) document ++ prettyEntries level entries))
  | document => write document

def prettyItems (level : Nat) : List Document → List Char
  | [] => line level ++ [']']
  | item :: items => ',' :: (line (level + 1) ++ pretty (level + 1) item ++ prettyItems level items)

def prettyEntries (level : Nat) : List (String × Document) → List Char
  | [] => line level ++ ['}']
  | (key, document) :: entries =>
    ',' :: (line (level + 1) ++ quoted key ++ ':' :: ' ' ::
      (pretty (level + 1) document ++ prettyEntries level entries))

end

end Weaving.Json

namespace Weaving.Document

/-- The JSON text of a document. -/
def toJson (document : Document) : String := String.ofList (Json.write document)

/-- The JSON text of a document, laid out over lines. -/
def toPrettyJson (document : Document) : String := String.ofList (Json.pretty 0 document)

end Weaving.Document
