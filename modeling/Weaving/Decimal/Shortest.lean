import Weaving.Word

/-!
The shortest decimal for a double. A finite double is an integer times a power of two; the reals that
round to it form an interval around it. On a grid of multiples of a power of ten only the two
neighbours of the double can be the nearest points of that interval, so the search goes from coarse
grids to fine ones and stops at the first grid with a neighbour inside.
-/

namespace Weaving.Decimal

/-- A non-negative decimal: its digits as one number, and the power of ten that scales them. -/
structure Scaled where
  digits : Nat
  exponent : Int
  deriving DecidableEq, Repr

/-- Which of two equally near decimals is taken. -/
inductive Tie where
  | up
  | toEven
  deriving DecidableEq, Repr

/-- A finite double without its sign: `mantissa * 2 ^ exponent`. -/
structure Binary where
  mantissa : Nat
  exponent : Int
  deriving DecidableEq, Repr

namespace Binary

/-- The parts of the magnitude of a finite double, read off its bits. -/
def ofFloat (x : Float) : Binary :=
  let bits := x.toBits.toNat
  let fraction : Nat := bits % Word.count 52
  let biased : Nat := bits / Word.count 52 % Word.count 11
  if biased = 0 then ⟨fraction, -1074⟩ else ⟨Word.count 52 + fraction, (biased : Int) - 1075⟩

/-- The distance to the next double below is halved at a power of two, except at the smallest ones. -/
def gapBelow (b : Binary) : Nat :=
  if b.mantissa = Word.count 52 ∧ b.exponent ≠ -1074 then 1 else 2

end Binary

/-- The interval of reals that round to a double, and the double in it, all in one unit. The ends
belong to the interval when `closed` is set. -/
structure Interval where
  low : Nat
  value : Nat
  high : Nat
  unit : Nat
  closed : Bool

namespace Interval

/-- A quarter of the last place of the mantissa is the unit in which all three points are whole. -/
def ofBinary (b : Binary) : Interval :=
  let quarter := b.exponent - 2
  let scale := Nat.pow 2 quarter.toNat
  { low := (4 * b.mantissa - b.gapBelow) * scale
    value := 4 * b.mantissa * scale
    high := (4 * b.mantissa + 2) * scale
    unit := Nat.pow 2 (-quarter).toNat
    closed := b.mantissa % 2 = 0 }

/-- Whether a point in the interval's unit rounds to its double. -/
def contains (i : Interval) (point : Nat) : Bool :=
  if i.closed then i.low ≤ point && point ≤ i.high else i.low < point && point < i.high

/-- The neighbour of the double on the grid of multiples of `10 ^ exponent` that rounds to it, the
nearer one if both do. -/
def onGrid? (tie : Tie) (i : Interval) (exponent : Int) : Option Scaled :=
  let finer := Nat.pow 10 (-exponent).toNat
  let i := { i with low := i.low * finer, value := i.value * finer, high := i.high * finer }
  let step := i.unit * Nat.pow 10 exponent.toNat
  let below := i.value / step
  let above := below + 1
  let fromBelow := i.value - below * step
  let fromAbove := above * step - i.value
  let aboveWins : Bool := match tie with
    | .up => fromAbove ≤ fromBelow
    | .toEven => fromAbove < fromBelow || (fromAbove = fromBelow && above % 2 = 0)
  match i.contains (below * step), i.contains (above * step) with
  | true, true => some ⟨if aboveWins then above else below, exponent⟩
  | true, false => some ⟨below, exponent⟩
  | false, true => some ⟨above, exponent⟩
  | false, false => none

end Interval

/-- Zeros at the end of the digits move into the exponent. -/
def Scaled.trim (d : Scaled) : Scaled :=
  if h : d.digits ≠ 0 ∧ d.digits % 10 = 0 then
    trim ⟨d.digits / 10, d.exponent + 1⟩
  else d
termination_by d.digits
decreasing_by exact Nat.div_lt_self (Nat.pos_of_ne_zero h.1) (by decide)

/-- The decimal with the fewest digits that reads back as the magnitude of a finite double, the
nearest of those. Grids finer than `10 ^ -345` are never needed. -/
def shortest (tie : Tie) (x : Float) : Scaled :=
  let b := Binary.ofFloat x
  if b.mantissa = 0 then ⟨0, 0⟩
  else
    let interval := Interval.ofBinary b
    let coarsest := (Nat.toDigits 10 (interval.value / interval.unit)).length
    let found := (List.range (coarsest + 346)).findSome? fun (finer : Nat) =>
      interval.onGrid? tie ((coarsest : Int) - finer)
    (found.getD ⟨0, 0⟩).trim

end Weaving.Decimal
