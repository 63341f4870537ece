import FormulaRoots.Binary64.Basic
import FormulaRoots.Solver.Error

/-! What the solvers are told: how close to come and how long to try. Settings are checked when they
are made, so a solver can rely on them. -/
namespace FormulaRoots
open Binary64

structure Tolerance where
  value : Float
  value_valid : isPositiveFinite value = true
  deriving DecidableEq

def Tolerance.ofFloat (v : Float) : Except SolverError Tolerance :=
  if h : isPositiveFinite v = true then .ok ⟨v, h⟩ else .error (.invalidTolerance v)

structure BisectionConfig where
  tolerance : Tolerance
  /-- How many halvings are allowed beyond those that the width calls for. -/
  safetyMargin : UInt64
  deriving DecidableEq

namespace BisectionConfig

/-- The margin that covers widths which rounding keeps just above the tolerance. -/
def defaultSafetyMargin : UInt64 := 10

def ofTolerance (v : Float) : Except SolverError BisectionConfig := do
  return ⟨← Tolerance.ofFloat v, defaultSafetyMargin⟩

def withTolerance (cfg : BisectionConfig) (v : Float) : Except SolverError BisectionConfig := do
  return { cfg with tolerance := ← Tolerance.ofFloat v }

def withSafetyMargin (cfg : BisectionConfig) (margin : UInt64) : BisectionConfig :=
  { cfg with safetyMargin := margin }

end BisectionConfig

structure FixedPointConfig where
  tolerance : Tolerance
  maxIter : Nat
  maxIter_pos : 0 < maxIter
  deriving DecidableEq

namespace FixedPointConfig

def withMaxIter (cfg : FixedPointConfig) (n : Nat) : Except SolverError FixedPointConfig :=
  if h : 0 < n then .ok { cfg with maxIter := n, maxIter_pos := h } else .error (.invalidMaxIter n)

/-- Settings with a tolerance and a number of steps. The tolerance is checked first. -/
def ofTolerance (v : Float) (maxIter : Nat) : Except SolverError FixedPointConfig := do
  withMaxIter ⟨← Tolerance.ofFloat v, 1, Nat.one_pos⟩ maxIter

def withTolerance (cfg : FixedPointConfig) (v : Float) : Except SolverError FixedPointConfig := do
  return { cfg with tolerance := ← Tolerance.ofFloat v }

end FixedPointConfig
end FormulaRoots
