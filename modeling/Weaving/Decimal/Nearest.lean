/-!
Reading decimals. A numeral is split into its digits and its power of ten, and the double nearest to
that exact decimal is taken, ties to even.
-/

namespace Weaving.Decimal

/-- The value of one ASCII digit. -/
def digit? (c : Char) : Option Nat :=
  if '0' ≤ c ∧ c ≤ '9' then some (c.toNat - '0'.toNat) else none

/-- The number written by a list of digits, most significant first; `none` if another character
occurs. The empty list is zero. -/
def natural? (cs : List Char) : Option Nat :=
  cs.foldlM (fun (n : Nat) c => (digit? c).map (10 * n + ·)) 0

theorem digit?_of_isDigit {c : Char} (digit : c.isDigit = true) : digit? c = some (c.toNat - '0'.toNat) := by
  simp only [Char.isDigit, Bool.and_eq_true, decide_eq_true_eq] at digit
  exact if_pos digit

theorem digit?_of_not_isDigit {c : Char} (other : ¬ c.isDigit = true) : digit? c = none := by
  simp only [Char.isDigit, Bool.and_eq_true, decide_eq_true_eq] at other
  exact if_neg other

/-- A natural number is read from digits alone, and from all of them. -/
theorem natural?_eq_some_iff {cs : List Char} {n : Nat} :
    natural? cs = some n ↔ (∀ c ∈ cs, c.isDigit = true) ∧ Nat.ofDigitChars 10 cs 0 = n := by
  suffices reads : ∀ m, cs.foldlM (fun (m : Nat) c => (digit? c).map (10 * m + ·)) m = some n ↔
      (∀ c ∈ cs, c.isDigit = true) ∧ Nat.ofDigitChars 10 cs m = n from reads 0
  induction cs with
  | nil => simp [pure]
  | cons c cs ih =>
    intro m
    rw [List.foldlM_cons, Nat.ofDigitChars_cons, List.forall_mem_cons]
    by_cases digit : c.isDigit = true
    · simp [digit?_of_isDigit digit, digit, ih]
    · simp [digit?_of_not_isDigit digit, digit]

/-- The double nearest to `digits * 10 ^ exponent`. Beyond the range of doubles this is infinity, and
below half the smallest double it is zero. -/
def nearest (digits : Nat) (exponent : Int) : Float :=
  let leading := exponent + (Nat.toDigits 10 digits).length
  if digits = 0 ∨ leading < -400 then 0.0
  else if leading > 400 then 1.0 / 0.0
  else Float.ofScientific digits (exponent < 0) exponent.natAbs

/-- The exponent of a numeral: a sign, if any, and at least one digit. -/
def exponent? (cs : List Char) : Option Int :=
  let signed (negative : Bool) (digits : List Char) : Option Int :=
    if digits.isEmpty then none
    else (natural? digits).map fun n => if negative then -(n : Int) else n
  match cs with
  | '+' :: rest => signed false rest
  | '-' :: rest => signed true rest
  | _ => signed false cs

/-- An unsigned numeral: digits with at most one point among them, at least one digit in all, then
possibly a mark `e` or `E` and an exponent. -/
def unsigned? (cs : List Char) : Option Float := do
  let isMark (c : Char) : Bool := c = 'e' || c = 'E'
  let (mantissa, tail) := cs.span (!isMark ·)
  let exponent ← match tail with
    | [] => some 0
    | _ :: digits => exponent? digits
  let (whole, tail) := mantissa.span (· ≠ '.')
  let fraction := tail.drop 1
  if whole.isEmpty && fraction.isEmpty then none
  else
    let digits ← natural? (whole ++ fraction)
    some (nearest digits (exponent - fraction.length))

end Weaving.Decimal
