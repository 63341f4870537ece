import FormulaRoots.Binary64.Logarithm

/-! How many halvings a bisection may make, in 64-bit arithmetic that is cut to its range instead of
wrapping around. -/
namespace FormulaRoots
open Binary64

def addSaturating (x y : Int64) : Int64 :=
  if BitVec.saddOverflow x.toBitVec y.toBitVec then
    if x < 0 then Int64.minValue else Int64.maxValue
  else x + y

def clampToInt64 (n : UInt64) : Int64 :=
  if n ≤ Int64.maxValue.toUInt64 then n.toInt64 else Int64.maxValue

def capOf (halvings : Int64) (margin : UInt64) : UInt64 :=
  let total := addSaturating halvings (clampToInt64 margin)
  if total < 0 then 0 else total.toUInt64

/-- The greatest number of halvings of `[a, b]`: as many as bring its width down to the tolerance, and
a margin. The first number is negative where the interval is narrow already. -/
def iterationCap (a b tolerance : Float) (margin : UInt64) : UInt64 :=
  capOf (ceilLog2 ((b - a) / tolerance)) margin

end FormulaRoots
