import FormulaRoots.Memo.Table
import FormulaRoots.Solver.Config

/-! A sampled function behind a memo table. The function is called at the rounded argument, so all
arguments in a bucket get the same value. -/
namespace FormulaRoots

structure SampleCache (σ : Type) where
  tolerance : Tolerance
  table : MemoTable
  source : σ

namespace SampleCache

def stepFor (tolerance : Float) : Float :=
  tolerance * 0.01

/-- The empty cache for a tolerance. It fails where a hundredth of the tolerance is no rounding
step. -/
def ofTolerance {σ : Type} (tolerance : Tolerance) (source : σ) :
    Except SolverError (SampleCache σ) :=
  let step := stepFor tolerance.value
  match MemoTable.ofStep? step with
  | some table => .ok ⟨tolerance, table, source⟩
  | none => .error (.degenerateCacheStep tolerance.value step)

def create {σ : Type} (tolerance : Float) (source : σ) : Except SolverError (SampleCache σ) := do
  ofTolerance (← Tolerance.ofFloat tolerance) source

def evaluations {σ : Type} (c : SampleCache σ) : Nat :=
  c.table.misses

def hits {σ : Type} (c : SampleCache σ) : Nat :=
  c.table.hits

def sample {σ : Type} (f : Sampler σ) : Sampler (SampleCache σ) := fun x c =>
  let (outcome, table, source) := c.table.getOrCompute f x c.source
  (outcome, { c with table, source })

end SampleCache
end FormulaRoots
