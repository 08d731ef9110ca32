import Weaving.Json.Token

/-!
Numbers, truth values and dates of TOML text.
-/

namespace Weaving.Toml

/-- Digits without the single underscores that may stand between two of them; at least one digit. -/
def ungrouped? (isDigit : Char → Bool) : List Char → Option (List Char)
  | [] => none
  | [c] => if isDigit c then some [c] else none
  | c :: '_' :: cs => if isDigit c then (ungrouped? isDigit cs).map (c :: ·) else none
  | c :: cs => if isDigit c then (ungrouped? isDigit cs).map (c :: ·) else none

/-- A sign, if any, and what follows it. -/
def signed (cs : List Char) : Bool × List Char :=
  match cs with
  | '-' :: rest => (true, rest)
  | '+' :: rest => (false, rest)
  | _ => (false, cs)

/-- Whole numbers are words of 64 bits with sign. -/
def integerOf? (negative : Bool) (magnitude : Nat) : Option Document :=
  let value : Int := if negative then -(magnitude : Int) else magnitude
  if Word.isSigned value then some (.int value) else none

/-- Decimal digits without superfluous zeros. -/
def whole? (cs : List Char) : Option (List Char) := do
  let digits ← ungrouped? Char.isDigit cs
  if digits.head? = some '0' ∧ digits.length ≠ 1 then none else some digits

/-- A whole number with a base other than ten. -/
def based? (base : Nat) (cs : List Char) : Option Document := do
  let isDigit (c : Char) : Bool := (Json.hexDigit? c).any (· < base)
  let digits ← ungrouped? isDigit cs
  let magnitude ← digits.foldlM (fun (n : Nat) c => (Json.hexDigit? c).map (base * n + ·)) 0
  integerOf? false magnitude

def integer? (cs : List Char) : Option Document :=
  match cs with
  | '0' :: 'x' :: digits => based? 16 digits
  | '0' :: 'o' :: digits => based? 8 digits
  | '0' :: 'b' :: digits => based? 2 digits
  | _ => do
    let (negative, digits) := signed cs
    let magnitude ← whole? digits >>= Decimal.natural?
    integerOf? negative magnitude

/-- The mark and digits of an exponent. -/
def exponentPart? (cs : List Char) : Option (List Char) :=
  match cs with
  | [] => some []
  | mark :: digits =>
    if mark = 'e' ∨ mark = 'E' then
      let (negative, digits) := signed digits
      (ungrouped? Char.isDigit digits).map fun digits =>
        'e' :: (if negative then '-' :: digits else digits)
    else none

/-- A fraction or an exponent or both, behind the whole part of a number. -/
def fractionPart? (cs : List Char) : Option (List Char) :=
  match cs with
  | [] => none
  | '.' :: cs => do
    let (digits, tail) := cs.span fun c => c.isDigit || c = '_'
    let digits ← ungrouped? Char.isDigit digits
    let exponent ← exponentPart? tail
    some ('.' :: (digits ++ exponent))
  | _ => exponentPart? cs

/-- A number with a fraction or an exponent. It must not exceed the greatest double. -/
def float? (cs : List Char) : Option Document := do
  let (negative, cs) := signed cs
  let (whole, tail) := cs.span fun c => c.isDigit || c = '_'
  let whole ← whole? whole
  let fraction ← fractionPart? tail
  let value ← Decimal.unsigned? (whole ++ fraction)
  if negative then some (.float (-value))
  else if value.isInf then none
  else some (.float value)

/-- Infinity, and what is not a number. -/
def special? (cs : List Char) : Option Document :=
  let (negative, word) := signed cs
  match String.ofList word with
  | "inf" => some (.float (if negative then -1.0 / 0.0 else 1.0 / 0.0))
  | "nan" => some (.float (0.0 / 0.0))
  | _ => none

/-! ## Dates -/

/-- A number of exactly two digits within bounds. -/
def pair? (least greatest : Nat) (tens ones : Char) : Bool :=
  (Decimal.natural? [tens, ones]).any fun n => least ≤ n && n ≤ greatest

def isLeapYear (year : Nat) : Bool := year % 4 = 0 && (year % 100 ≠ 0 || year % 400 = 0)

def daysIn (year month : Nat) : Nat :=
  if month = 2 then (if isLeapYear year then 29 else 28)
  else if month = 4 ∨ month = 6 ∨ month = 9 ∨ month = 11 then 30
  else 31

/-- Year, month and day. -/
def isDate : List Char → Bool
  | [y₁, y₂, y₃, y₄, '-', m₁, m₂, '-', d₁, d₂] =>
    match Decimal.natural? [y₁, y₂, y₃, y₄], Decimal.natural? [m₁, m₂] with
    | some year, some month =>
      1 ≤ month && month ≤ 12 && pair? 1 (daysIn year month) d₁ d₂
    | _, _ => false
  | _ => false

/-- Nothing, or the letter of universal time, or hours and minutes from it. -/
def isOffset : List Char → Bool
  | [] => true
  | ['Z'] => true
  | ['z'] => true
  | [sign, h₁, h₂, ':', m₁, m₂] => (sign = '+' || sign = '-') && pair? 0 23 h₁ h₂ && pair? 0 59 m₁ m₂
  | _ => false

/-- A fraction of a second, if any, and then what `ending` accepts. -/
def isSecondsTail (ending : List Char → Bool) : List Char → Bool
  | '.' :: cs => !(cs.takeWhile Char.isDigit).isEmpty && ending (cs.dropWhile Char.isDigit)
  | cs => ending cs

/-- Hours, minutes and seconds, and then what `ending` accepts. -/
def isTime (ending : List Char → Bool) : List Char → Bool
  | h₁ :: h₂ :: ':' :: m₁ :: m₂ :: ':' :: s₁ :: s₂ :: tail =>
    pair? 0 23 h₁ h₂ && pair? 0 59 m₁ m₂ && pair? 0 60 s₁ s₂ && isSecondsTail ending tail
  | _ => false

/-- A date, a time, or both with a letter between them. -/
def isDateOrTime (cs : List Char) : Bool :=
  isDate cs || isTime List.isEmpty cs ||
    (isDate (cs.take 10) &&
      match cs.drop 10 with
      | mark :: time => (mark = 'T' || mark = 't') && isTime isOffset time
      | [] => false)

/-- Dates fit no field; a date is a record of its own kind. -/
def dateOf (cs : List Char) : Document := .table [("date", .text (String.ofList cs))]

/-! ## Words -/

/-- The characters of words that are values. -/
def isWordChar (c : Char) : Bool :=
  c.isAlphanum || c = '_' || c = '-' || c = '+' || c = '.' || c = ':'

/-- The value of a whole word. -/
def word? (cs : List Char) : Option Document :=
  match String.ofList cs with
  | "true" => some (.bool true)
  | "false" => some (.bool false)
  | _ =>
    if isDateOrTime cs then some (dateOf cs)
    else integer? cs <|> float? cs <|> special? cs

/-- A word at the front of a text. A blank may stand between a date and a time. -/
def scalar? (cs : List Char) : Option (Document × List Char) :=
  let (word, rest) := cs.span isWordChar
  match rest with
  | ' ' :: more =>
    let (time, rest) := more.span isWordChar
    if isDate word && isTime isOffset time then some (dateOf (word ++ ' ' :: time), rest)
    else (word? word).map fun value => (value, ' ' :: more)
  | _ => (word? word).map fun value => (value, rest)

end Weaving.Toml
