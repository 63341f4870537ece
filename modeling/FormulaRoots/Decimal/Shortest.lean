import FormulaRoots.Binary64.Basic
import FormulaRoots.Decimal.Basic

/-! The decimal with the fewest digits that reads back to a given double, and the spelling of
doubles by it. -/
namespace FormulaRoots
open Binary64

namespace Binary64.Dyadic

/-- One unit of the significand, measured in units of `10 ^ t`, as a fraction. -/
def unitOn (x : Dyadic) (t : Int) : Nat × Nat :=
  (Nat.pow 2 x.exponent.toNat * Nat.pow 10 (-t).toNat,
    Nat.pow 2 (-x.exponent).toNat * Nat.pow 10 t.toNat)

/-- Whether `n * 10 ^ t` is rounded to `x`. The reals that are reach halfway to both neighbours, and
the ends belong to the even significand; quarters of a unit measure also the narrow side. -/
def admits (x : Dyadic) (t : Int) (n : Nat) : Bool :=
  let (num, den) := x.unitOn t
  let low := (4 * x.significand - if x.narrowBelow then 1 else 2) * num
  let high := (4 * x.significand + 2) * num
  let here := 4 * n * den
  if x.significand % 2 = 0 then decide (low ≤ here) && decide (here ≤ high)
  else decide (low < here) && decide (here < high)

/-- The multiple of `10 ^ t` that stands for `x`: of its two neighbours on that grid the one that is
rounded to `x`, of two such the nearer, and the upper one when both are equally near. -/
def onGrid? (x : Dyadic) (t : Int) : Option Nat :=
  let (num, den) := x.unitOn t
  let n := x.significand * num / den
  match x.admits t n, x.admits t (n + 1) with
  | true, true => some (if 2 * (x.significand * num) < (2 * n + 1) * den then n else n + 1)
  | true, false => some n
  | false, true => some (n + 1)
  | false, false => none

/-- The least `k` with `x < 10 ^ k`, for a significand other than 0. The estimate from the binary
logarithm is right or one too small. -/
def decade (x : Dyadic) : Int :=
  let k := (x.significand.log2 + x.exponent) * 30103 / 100000 + 1
  let (num, den) := x.unitOn k
  if x.significand * num < den then k else k + 1

def expansion (x : Dyadic) : Decimal :=
  ⟨x.significand * Nat.pow 2 x.exponent.toNat * Nat.pow 5 (-x.exponent).toNat, min x.exponent 0⟩

/-- The decimal with the fewest digits that is rounded to `x`; seventeen are enough for a double. -/
def shortest (x : Dyadic) : Decimal :=
  if x.significand = 0 then ⟨0, 0⟩
  else
    let top := x.decade - 1
    ((List.range 17).findSome? fun (n : Nat) =>
      (x.onGrid? (top - n)).map fun d => (⟨d, top - n⟩ : Decimal)).getD x.expansion

end Binary64.Dyadic

/-- How a double is written: the fewest digits that read back to it, all in their places. Minus zero
keeps its sign, NaN has none. -/
def Decimal.text (v : Float) : String :=
  if v.isNaN then "NaN"
  else
    let unsigned :=
      if v.isFinite then String.ofList (magnitude v).shortest.positional else "inf"
    if signBit v then "-" ++ unsigned else unsigned

end FormulaRoots
