import FormulaRoots.Binary64.Basic

/-! Intervals, and the changes of sign that make them brackets. -/
namespace FormulaRoots
open Binary64

structure Bracket where
  left : Float
  right : Float
  deriving DecidableEq, Repr

namespace Bracket

def width (b : Bracket) : Float :=
  b.right - b.left

def midpoint (b : Bracket) : Float :=
  b.left + (b.right - b.left) / 2.0

def isProper (b : Bracket) : Bool :=
  b.left.isFinite && b.right.isFinite && !decide (b.right ≤ b.left) && b.width.isFinite

end Bracket

/-- Whether two values have opposite signs. The sign bits decide, since the product of two tiny
values vanishes; zeros and NaN have no sign. -/
def changesSign (u v : Float) : Bool :=
  !u.isNaN && !v.isNaN && !(u == 0.0) && !(v == 0.0) && signBit u != signBit v

/-- The half of a bracket that still changes sign, for the values at its left end and its middle; the
right half if the left one does not. -/
def Bracket.half (b : Bracket) (fLeft fMid : Float) : Bracket :=
  if changesSign fLeft fMid then { b with right := b.midpoint } else { b with left := b.midpoint }

end FormulaRoots
