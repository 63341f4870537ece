import FormulaRoots.Formula.Expression
import FormulaRoots.Solver.Bisection
import FormulaRoots.Solver.FixedPoint

/-! Solving formulas given as text. -/
namespace FormulaRoots

/-- Reads a formula and hands it to a solver. A text that is no formula is refused before anything is
sampled. -/
def solveWith {ρ : Type} (source : String)
    (solver : Sampler Expression → Expression → Outcome SolverError ρ × Expression) :
    Outcome SolveError ρ :=
  match Expression.ofText source with
  | .error e => ⟨.error (.formula e), []⟩
  | .ok expression =>
    let (outcome, _) := solver Expression.evaluate expression
    ⟨outcome.result.mapError .solver, expression.formula.logEntry :: outcome.log⟩

def solveBisection (source : String) (bracket : Bracket) (cfg : BisectionConfig) :
    Outcome SolveError BisectionRecord :=
  solveWith source fun f e => bisection f bracket cfg e

def solveFixedPoint (source : String) (x0 : Float) (cfg : FixedPointConfig) :
    Outcome SolveError FixedPointRecord :=
  solveWith source fun g e => fixedPoint g x0 cfg e

end FormulaRoots
