import Weaving.Decimal.Shortest

/-!
How a double is written. The digits are always the shortest ones; a style says where the point goes,
when an exponent is written, and how the numbers without digits are spelled.
-/

namespace Weaving.Decimal

/-- The decisions of one way to write doubles. A number whose leading digit stands for `10 ^ e` is
written with an exponent unless `e` lies in `positional`; no bounds mean that no exponent is ever
written. -/
structure Style where
  tie : Tie
  positional : Option (Int × Int)
  /-- A whole number written without exponent ends in `.0`. -/
  keepPoint : Bool
  nan : String
  infinity : String
  negativeInfinity : String

namespace Style

/-- Whether the style writes this leading exponent without an exponent mark. -/
def isPositional (style : Style) (leading : Int) : Bool :=
  match style.positional with
  | none => true
  | some (least, limit) => least ≤ leading && leading < limit

/-- Digits around a decimal point. -/
def point (style : Style) (digits : List Char) (leading : Int) : List Char :=
  if leading < 0 then
    '0' :: '.' :: (List.replicate (-leading - 1).toNat '0' ++ digits)
  else
    let whole := leading.toNat + 1
    let fraction := digits.drop whole
    let integer := digits.take whole ++ List.replicate (whole - digits.length) '0'
    if fraction.isEmpty then integer ++ (if style.keepPoint then ['.', '0'] else [])
    else integer ++ '.' :: fraction

/-- One digit, the others after a point, and a signed exponent. -/
def scientific (digits : List Char) (leading : Int) : List Char :=
  let mantissa := match digits with
    | first :: rest => if rest.isEmpty then [first] else first :: '.' :: rest
    | [] => []
  let sign := if leading < 0 then '-' else '+'
  mantissa ++ 'e' :: sign :: Nat.toDigits 10 leading.natAbs

/-- The magnitude of a finite double. -/
def magnitude (style : Style) (x : Float) : List Char :=
  let decimal := shortest style.tie x
  let digits := Nat.toDigits 10 decimal.digits
  let leading := decimal.exponent + digits.length - 1
  if style.isPositional leading then style.point digits leading else scientific digits leading

/-- The text of a double. The sign of zero is kept; a NaN has none. -/
def write (style : Style) (x : Float) : String :=
  if x.isNaN then style.nan
  else if x.isInf then (if x < 0 then style.negativeInfinity else style.infinity)
  else
    let negative := x.toBits.toNat / Word.count 63 = 1
    String.ofList ((if negative then ['-'] else []) ++ style.magnitude x)

end Style

end Weaving.Decimal
