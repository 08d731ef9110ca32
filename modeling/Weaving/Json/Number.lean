import Weaving.Decimal.Nearest
import Weaving.Document

/-!
Numbers in JSON text. A whole number within 64 bits is itself; any other number is a double. Its
digits are taken as long as they fit one word of 64 bits, that word is rounded to a double, and the
power of ten is applied to it in one multiplication or division, rounded once more.
-/

namespace Weaving.Json

/-- The digits of a number that still fit one word, with the power of ten that the others and the
point leave. -/
structure Significand where
  word : Nat
  exponent : Int
  /-- A digit did not fit, so no further digit of this part is taken. -/
  full : Bool

namespace Significand

/-- The word after one more digit, if it fits. -/
def extend? (s : Significand) (digit : Nat) : Option Nat :=
  let word := 10 * s.word + digit
  if word < Word.count 64 then some word else none

/-- A digit before the point raises the exponent when it is not taken. -/
def pushWhole (s : Significand) (digit : Nat) : Significand :=
  match s.full, s.extend? digit with
  | false, some word => { s with word }
  | _, _ => { s with exponent := s.exponent + 1, full := true }

/-- A digit after the point lowers the exponent when it is taken. -/
def pushFraction (s : Significand) (digit : Nat) : Significand :=
  match s.full, s.extend? digit with
  | false, some word => { s with word, exponent := s.exponent - 1 }
  | _, _ => { s with full := true }

/-- The significand of the digits before and after the point. -/
def ofDigits (whole fraction : List Nat) : Significand :=
  let s := whole.foldl pushWhole ⟨0, 0, false⟩
  fraction.foldl pushFraction { s with full := false }

end Significand

/-- The double nearest to a power of ten. -/
def powerOfTen (exponent : Nat) : Float := Float.ofScientific 1 false exponent

/-- A double times a power of ten; `none` beyond the range of doubles. Two divisions are made for
exponents below -308, and below -616 nothing is left. -/
def scale? (x : Float) (exponent : Int) : Option Float :=
  if x == 0.0 || exponent < -616 then some 0.0
  else if exponent < -308 then
    some (x / powerOfTen 308 / powerOfTen (-exponent - 308).toNat)
  else if exponent < 0 then some (x / powerOfTen (-exponent).toNat)
  else if exponent > 308 then none
  else
    let y := x * powerOfTen exponent.toNat
    if y.isInf then none else some y

/-- The parts of a numeral. -/
structure Numeral where
  negative : Bool
  whole : List Nat
  fraction : Option (List Nat)
  exponent : Option Int

namespace Numeral

/-- At least one digit, read off the front. -/
def digits? (cs : List Char) : Option (List Nat × List Char) :=
  let (digits, rest) := cs.span fun c => (Decimal.digit? c).isSome
  if digits.isEmpty then none else some (digits.filterMap Decimal.digit?, rest)

/-- A numeral: an integer without superfluous zeros, then possibly a fraction and an exponent. -/
def ofChars? (cs : List Char) : Option Numeral := do
  let (negative, cs) := match cs with
    | '-' :: rest => (true, rest)
    | _ => (false, cs)
  let (whole, tail) ← digits? cs
  if whole.head? = some 0 ∧ whole.length ≠ 1 then none
  else
    let (fraction, tail) ← match tail with
      | '.' :: rest => (digits? rest).map fun (digits, tail) => (some digits, tail)
      | _ => some (none, tail)
    match tail with
    | [] => some ⟨negative, whole, fraction, none⟩
    | mark :: rest =>
      if mark = 'e' ∨ mark = 'E' then
        (Decimal.exponent? rest).map fun exponent => ⟨negative, whole, fraction, some exponent⟩
      else none

/-- The double of a numeral. -/
def toFloat? (n : Numeral) : Option Float :=
  let s := Significand.ofDigits n.whole (n.fraction.getD [])
  (scale? (Float.ofNat s.word) (s.exponent + n.exponent.getD 0)).map
    fun x => if n.negative then -x else x

/-- The integer of a numeral, if it is one of 64 bits: unsigned, or negative with a sign. -/
def toInt? (n : Numeral) : Option Int :=
  match n.fraction, n.exponent with
  | none, none =>
    let magnitude : Nat := n.whole.foldl (fun m d => 10 * m + d) 0
    if n.negative then
      if 0 < magnitude ∧ magnitude ≤ Word.count 63 then some (-(magnitude : Int)) else none
    else if magnitude < Word.count 64 then some magnitude else none
  | _, _ => none

/-- What a numeral stands for. -/
def toDocument (n : Numeral) : Document :=
  match n.toInt? with
  | some value => .int value
  | none => (n.toFloat?.map .float).getD .unreadable

end Numeral

end Weaving.Json
