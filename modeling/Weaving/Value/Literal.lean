import Weaving.Decimal.Nearest
import Weaving.Value

/-!
Literals: how a value is given on a command line. A few words and the numerals stand for themselves,
and any other text is a string.
-/

namespace Weaving.Value

/-- A sign, if any, and what follows it. -/
def signed (cs : List Char) : Bool × List Char :=
  match cs with
  | '+' :: rest => (false, rest)
  | '-' :: rest => (true, rest)
  | _ => (false, cs)

/-- Digits after an optional sign, within 64 bits with sign. -/
def intLiteral? (cs : List Char) : Option Int :=
  let (negative, digits) := signed cs
  if digits.isEmpty then none
  else do
    let magnitude ← Decimal.natural? digits
    let value : Int := if negative then -(magnitude : Int) else magnitude
    if Word.isSigned value then some value else none

/-- The numbers without digits, in letters of any case. -/
def specialFloat? (cs : List Char) : Option Float :=
  let word := String.ofList (cs.map Char.toLower)
  if word = "inf" ∨ word = "infinity" then some (1.0 / 0.0)
  else if word = "nan" then some (0.0 / 0.0)
  else none

/-- A decimal numeral or a number without digits, after an optional sign. -/
def floatLiteral? (cs : List Char) : Option Float :=
  let (negative, rest) := signed cs
  ((specialFloat? rest).or (Decimal.unsigned? rest)).map fun x => if negative then -x else x

/-- The value of a literal. -/
def ofLiteral (literal : String) : Value :=
  match literal with
  | "null" => .null
  | "true" => .bool true
  | "false" => .bool false
  | _ =>
    match intLiteral? literal.toList with
    | some value => .int value
    | none =>
      match floatLiteral? literal.toList with
      | some value => .float value
      | none => .text literal

end Weaving.Value
