import FormulaRoots.Formula.Error
import FormulaRoots.Formula.Evaluation

/-! Why a solver gives no report. -/
namespace FormulaRoots

inductive ErrorKind where
  | parse
  | arithmetic
  /-- An argument is out of range, or the interval does not bracket a root. -/
  | invalidArgument
  deriving DecidableEq, Repr

def ErrorKind.name : ErrorKind → String
  | parse => "Parse"
  | arithmetic => "Arithmetic"
  | invalidArgument => "InvalidArgument"

inductive SolverError where
  | invalidTolerance (got : Float)
  | invalidMaxIter (got : Nat)
  | invalidBounds (a b : Float)
  | noSignChange (a b fa fb : Float)
  | degenerateCacheStep (tolerance step : Float)
  | arithmetic (cause : DivisionByZero)
  deriving DecidableEq, Repr

inductive BracketHint where
  | lowerTheLowerBound
  | raiseTheUpperBound
  | indeterminate
  deriving DecidableEq, Repr

def BracketHint.name : BracketHint → String
  | lowerTheLowerBound => "LowerTheLowerBound"
  | raiseTheUpperBound => "RaiseTheUpperBound"
  | indeterminate => "Indeterminate"

namespace SolverError

def message : SolverError → String
  | invalidTolerance got =>
    s!"invalid tolerance: must be finite and > 0. got {Decimal.text got}"
  | invalidMaxIter got => s!"invalid max_iter: must be >= 1. got max_iter={got}"
  | invalidBounds a b =>
    "invalid bounds: a and b must be finite with a < b. got "
      ++ s!"[{Decimal.text a}, {Decimal.text b}]"
  | noSignChange a b fa fb =>
    s!"no sign change on [{Decimal.text a}, {Decimal.text b}]: "
      ++ s!"f(a)={Decimal.text fa}, f(b)={Decimal.text fb}"
  | degenerateCacheStep tolerance step =>
    s!"cache step {Decimal.text step} (tolerance {Decimal.text tolerance} * 0.01) "
      ++ "is not a usable rounding step"
  | arithmetic cause => cause.message

def kind : SolverError → ErrorKind
  | arithmetic _ => .arithmetic
  | _ => .invalidArgument

/-- How to move the interval, for a missing change of sign: away from the end whose value is too
large or too small. There is no advice if an end has no sign. -/
def hint? : SolverError → Option BracketHint
  | noSignChange _ _ fa fb =>
    some <|
      if (0.0 : Float) < fa ∧ (0.0 : Float) < fb then .lowerTheLowerBound
      else if fa < 0.0 ∧ fb < 0.0 then .raiseTheUpperBound
      else .indeterminate
  | _ => none

end SolverError

inductive SolveError where
  | formula (cause : FormulaError)
  | solver (cause : SolverError)
  deriving DecidableEq, Repr

namespace SolveError

def message : SolveError → String
  | formula cause => "parse error: " ++ cause.message
  | solver cause => cause.message

def kind : SolveError → ErrorKind
  | formula _ => .parse
  | solver cause => cause.kind

end SolveError
end FormulaRoots
