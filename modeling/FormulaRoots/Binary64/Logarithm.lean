import FormulaRoots.Binary64.Basic

/-! The least integer not below the binary logarithm of a double, where the logarithm is itself
a double and has been rounded to nearest. -/
namespace FormulaRoots.Binary64

/-- For an integer `e` of magnitude at least 1, half the distance to the next larger double is
two to the power of this number. -/
def halfGapExponent (e : Int) : Int :=
  let scale : Int := e.natAbs.log2
  if e < 0 ∧ e.natAbs = Nat.pow 2 e.natAbs.log2 then scale - 54 else scale - 53

/-- Whether the logarithm of `(1 + excess / unit) * 2 ^ e` is so close to `e` that it is rounded
to `e`. Near 1 the binary logarithm grows by `1 / ln 2` per unit, and `ln 2` is 0.693147…;
zero has no such neighbourhood, since doubles are dense there. -/
def roundsDownTo (e : Int) (excess unit : Nat) : Bool :=
  e != 0 && decide (excess * Nat.pow 2 (-halfGapExponent e).toNat * 1000000 ≤ 693147 * unit)

def Dyadic.ceilLog2 (d : Dyadic) : Int :=
  let unit := Nat.pow 2 d.significand.log2
  let e : Int := d.significand.log2 + d.exponent
  if d.significand = unit || roundsDownTo e (d.significand - unit) unit then e else e + 1

/-- The ceiling of the rounded binary logarithm as a 64-bit integer. The infinite logarithms of
zero and of infinity are cut to the least and greatest integer, and 0 stands for the
undefined one of NaN and negative numbers. -/
def ceilLog2 (v : Float) : Int64 :=
  if v == 0.0 then Int64.minValue
  else if (0.0 : Float) < v then
    if v.isFinite then Int64.ofInt (magnitude v).ceilLog2 else Int64.maxValue
  else 0

end FormulaRoots.Binary64
