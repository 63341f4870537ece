import FormulaRoots.Binary64.Basic

/-! Rounding a double to an integer, a half going away from zero. -/
namespace FormulaRoots.Binary64

/-- From this magnitude on, 2 ^ 52, every double is an integer. -/
def integralFrom : Float := 4503599627370496.0

def nearestInteger (m : Float) : Float :=
  let whole := m.toUInt64.toFloat
  if m - whole < 0.5 then whole else whole + 1.0

/-- The nearest integer, halves going away from zero. The sign is kept, also when the result is
zero; infinities and NaN are returned as they are. -/
def roundAway (v : Float) : Float :=
  if v.abs < integralFrom then
    if signBit v then -nearestInteger v.abs else nearestInteger v.abs
  else v

end FormulaRoots.Binary64
