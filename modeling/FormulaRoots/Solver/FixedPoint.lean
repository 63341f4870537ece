import FormulaRoots.Memo.SampleCache
import FormulaRoots.Solver.Report

/-! Fixed-point iteration: a function is applied to its own values until a step is short or the steps
are used up. -/
namespace FormulaRoots

structure FixedPointRecord where
  iteration : Nat
  current : Float
  next : Float
  error : Float
  deriving DecidableEq, Repr

def FixedPointRecord.ofStep (iteration : Nat) (current next : Float) : FixedPointRecord :=
  ⟨iteration, current, next, (next - current).abs⟩

def Report.finalError? (r : Report FixedPointRecord) : Option Float :=
  r.trace.getLast?.map FixedPointRecord.error

namespace FixedPoint

inductive Ending where
  | shortStep
  | limitReached
  | failed (e : DivisionByZero)

structure Course where
  records : List FixedPointRecord
  ending : Ending

def Course.cons (record : FixedPointRecord) (c : Course) : Course :=
  { c with records := record :: c.records }

def iterate {σ : Type} (sample : Sampler σ) (tol : Float) (budget iteration : Nat)
    (current : Float) (s : σ) : Course × σ :=
  match budget with
  | 0 => (⟨[], .limitReached⟩, s)
  | budget + 1 =>
    match sample current s with
    | (.error e, s) => (⟨[], .failed e⟩, s)
    | (.ok next, s) =>
      let record := FixedPointRecord.ofStep iteration current next
      if record.error < tol then (⟨[record], .shortStep⟩, s)
      else
        let (course, s) := iterate sample tol budget (iteration + 1) next s
        (course.cons record, s)

def Ending.status : Ending → Except SolverError ToleranceStatus
  | shortStep => .ok .stepSizeReached
  | limitReached => .ok .toleranceNotReached
  | failed e => .error (.arithmetic e)

/-- The point that the function was last applied to, and its value there; without any step, the start
and no value. -/
def Course.last (c : Course) (x0 : Float) : Float × Float :=
  match c.records.getLast? with
  | some record => (record.current, record.next)
  | none => (x0, 0.0 / 0.0)

/-- The report on a course, given how often the function was called and a stored value used. The
root is the argument of the last step and not its value. -/
def Course.result (c : Course) (x0 : Float) (evaluations cacheHits : Nat) :
    Except SolverError (Report FixedPointRecord) := do
  let status ← c.ending.status
  let (root, fRoot) := c.last x0
  return ⟨root, fRoot, evaluations, cacheHits, status, .fixedPoint, c.records⟩

def recordEntry (r : FixedPointRecord) : LogEntry :=
  ⟨.trace, s!"fixed point iter {r.iteration}: x={Decimal.text r.current} "
    ++ s!"g(x)={Decimal.text r.next} err={Decimal.text r.error}"⟩

def endEntries (x0 : Float) (cfg : FixedPointConfig) (c : Course) : List LogEntry :=
  let (root, fRoot) := c.last x0
  let finished : LogEntry :=
    ⟨.debug, s!"fixed point finished after {c.records.length} iterations: "
      ++ s!"x={Decimal.text root}, g(x)={Decimal.text fRoot}"⟩
  match c.ending with
  | .failed _ => []
  | .limitReached =>
    [⟨.warn, s!"fixed point did not converge within {cfg.maxIter} iterations; "
      ++ s!"last x={Decimal.text root}"⟩, finished]
  | .shortStep => [finished]

def Course.log (c : Course) (x0 : Float) (cfg : FixedPointConfig) : List LogEntry :=
  ⟨.debug, s!"fixed point from x0={Decimal.text x0}, tol={Decimal.text cfg.tolerance.value}, "
      ++ s!"max_iter={cfg.maxIter}"⟩
    :: c.records.map recordEntry ++ endEntries x0 cfg c

end FixedPoint

open FixedPoint in
/-- Looks for a point that `g` maps to itself, starting from `x0`. Every sample goes through a cache;
beside the outcome, the state of `g` is returned. -/
def fixedPoint {σ : Type} (g : Sampler σ) (x0 : Float) (cfg : FixedPointConfig) (s : σ) :
    Outcome SolverError FixedPointRecord × σ :=
  match SampleCache.ofTolerance cfg.tolerance s with
  | .error e => (⟨.error e, []⟩, s)
  | .ok cache =>
    let (course, cache) :=
      iterate (SampleCache.sample g) cfg.tolerance.value cfg.maxIter 1 x0 cache
    (⟨course.result x0 cache.evaluations cache.hits, course.log x0 cfg⟩, cache.source)

end FormulaRoots
