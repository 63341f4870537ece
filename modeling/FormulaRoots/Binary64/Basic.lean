/-! The fields of a double: sign bit, exponent and significand, and the exact magnitude
that they stand for. -/
namespace FormulaRoots.Binary64

/-- The sign bit, set for minus zero as for every negative number. -/
def signBit (v : Float) : Bool :=
  v.toBits >>> 63 == 1

/-- The exponent field: 0 for zeros and subnormal numbers, 2047 for infinities and NaN. -/
def exponentField (v : Float) : Nat :=
  ((v.toBits >>> 52) &&& 0x7FF).toNat

def fractionField (v : Float) : Nat :=
  (v.toBits &&& 0xFFFFFFFFFFFFF).toNat

def isNormal (v : Float) : Bool :=
  exponentField v != 0 && exponentField v != 2047

def isPositiveFinite (v : Float) : Bool :=
  v.isFinite && decide ((0.0 : Float) < v)

/-- The exact value `significand * 2 ^ exponent` of a finite magnitude. -/
structure Dyadic where
  significand : Nat
  exponent : Int
  /-- The next smaller double is half as far away as the next larger one. -/
  narrowBelow : Bool
  deriving DecidableEq, Repr

def magnitude (v : Float) : Dyadic :=
  let field := exponentField v
  let fraction := fractionField v
  if field = 0 then ⟨fraction, -1074, false⟩
  else ⟨Nat.pow 2 52 + fraction, (field : Int) - 1075, fraction == 0 && decide (1 < field)⟩

end FormulaRoots.Binary64
