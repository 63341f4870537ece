/-! Decimal numbers with an exponent, their double, and their positional spelling. -/
namespace FormulaRoots

structure Decimal where
  digits : Nat
  exponent : Int
  deriving DecidableEq, Repr

namespace Decimal

/-- The power of ten just above the number: for digits other than 0 it lies in
`[10 ^ (decade - 1), 10 ^ decade)`. -/
def decade (d : Decimal) : Int :=
  (Nat.toDigits 10 d.digits).length + d.exponent

/-- The nearest double, a tie going to the even significand. Numbers from 10 ^ 310 on are
infinite and those below 10 ^ -330 are zero, whatever their digits. -/
def toFloat (d : Decimal) : Float :=
  if d.digits = 0 ∨ d.decade < -330 then 0.0
  else if 310 < d.decade then 1.0 / 0.0
  else Float.ofScientific d.digits (decide (d.exponent < 0)) d.exponent.natAbs

def dropTrailingZeros (ds : List Char) : List Char :=
  (ds.reverse.dropWhile (· == '0')).reverse

/-- All digits in their places, without exponent: at least one digit stands before the point, and
neither the point nor a zero ends a fraction. -/
def positional (d : Decimal) : List Char :=
  let ds := Nat.toDigits 10 d.digits
  if 0 ≤ d.exponent then ds ++ List.replicate d.exponent.toNat '0'
  else
    let places := d.exponent.natAbs
    let padded := List.replicate (places + 1 - ds.length) '0' ++ ds
    let whole := padded.take (padded.length - places)
    match dropTrailingZeros (padded.drop (padded.length - places)) with
    | [] => whole
    | fraction => whole ++ '.' :: fraction

end Decimal
end FormulaRoots
