import FormulaRoots.Log
import FormulaRoots.Solver.Error

/-! What a solver reports. -/
namespace FormulaRoots

inductive Algorithm where
  | bisection
  | fixedPoint
  deriving DecidableEq, Repr

def Algorithm.name : Algorithm → String
  | bisection => "bisection"
  | fixedPoint => "fixed_point"

inductive TerminationReason where
  | toleranceReached
  | iterationLimit
  deriving DecidableEq, Repr

def TerminationReason.name : TerminationReason → String
  | toleranceReached => "ToleranceReached"
  | iterationLimit => "IterationLimit"

inductive ToleranceStatus where
  /-- The magnitude of the function's value. -/
  | absFxReached
  /-- The width of the bracket. -/
  | widthTolReached
  /-- The length of the last step. -/
  | stepSizeReached
  /-- Nothing, within the steps allowed. -/
  | toleranceNotReached
  deriving DecidableEq, Repr

namespace ToleranceStatus

def name : ToleranceStatus → String
  | absFxReached => "AbsFxReached"
  | widthTolReached => "WidthTolReached"
  | stepSizeReached => "StepSizeReached"
  | toleranceNotReached => "ToleranceNotReached"

def reason : ToleranceStatus → TerminationReason
  | toleranceNotReached => .iterationLimit
  | _ => .toleranceReached

end ToleranceStatus

structure Report (ρ : Type) where
  root : Float
  /-- The value sampled at `root`. -/
  fRoot : Float
  evaluations : Nat
  cacheHits : Nat
  status : ToleranceStatus
  algorithm : Algorithm
  trace : List ρ
  deriving DecidableEq, Repr

namespace Report

def iterations {ρ : Type} (r : Report ρ) : Nat :=
  r.trace.length

def terminationReason {ρ : Type} (r : Report ρ) : TerminationReason :=
  r.status.reason

def converged {ρ : Type} (r : Report ρ) : Bool :=
  r.terminationReason == .toleranceReached

end Report

structure Outcome (ε ρ : Type) where
  result : Except ε (Report ρ)
  log : List LogEntry

end FormulaRoots
