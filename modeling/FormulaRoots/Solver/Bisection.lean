import FormulaRoots.Memo.SampleCache
import FormulaRoots.Solver.Bracket
import FormulaRoots.Solver.IterationCap
import FormulaRoots.Solver.Report

/-! Bisection: a bracket is halved, keeping the half that changes sign, until the function is small at
a midpoint, the bracket is narrow, or the cap is reached. The course of a run is a value, from which
both the report and the messages are read off. -/
namespace FormulaRoots

structure BisectionRecord where
  iteration : Nat
  left : Float
  right : Float
  midpoint : Float
  fMid : Float
  /-- The width of the bracket before it is halved. -/
  error : Float
  deriving DecidableEq, Repr

namespace BisectionRecord

def ofBracket (iteration : Nat) (bracket : Bracket) (fMid : Float) : BisectionRecord :=
  ⟨iteration, bracket.left, bracket.right, bracket.midpoint, fMid, bracket.width⟩

def bracket (r : BisectionRecord) : Bracket :=
  ⟨r.left, r.right⟩

end BisectionRecord

def Report.lastBracket? (r : Report BisectionRecord) : Option Bracket :=
  r.trace.getLast?.map BisectionRecord.bracket

namespace Bisection

inductive Ending where
  /-- The function is small at the last midpoint. -/
  | smallValue
  | narrow
  | capReached
  | failed (e : DivisionByZero)

structure Descent where
  records : List BisectionRecord
  /-- The bracket in hand at the end. -/
  bracket : Bracket
  ending : Ending

namespace Descent

def stop (tol : Float) (bracket : Bracket) : Descent :=
  ⟨[], bracket, if bracket.width ≤ tol then .narrow else .capReached⟩

def cons (record : BisectionRecord) (d : Descent) : Descent :=
  { d with records := record :: d.records }

end Descent

/-- Halves a bracket at most `budget` times, the first time as number `iteration`; `fLeft` is the value
at its left end. -/
def descend {σ : Type} (sample : Sampler σ) (tol : Float) (budget iteration : Nat)
    (bracket : Bracket) (fLeft : Float) (s : σ) : Descent × σ :=
  match budget with
  | 0 => (.stop tol bracket, s)
  | budget + 1 =>
    if tol < bracket.width then
      match sample bracket.midpoint s with
      | (.error e, s) => (⟨[], bracket, .failed e⟩, s)
      | (.ok fMid, s) =>
        let record := BisectionRecord.ofBracket iteration bracket fMid
        if fMid.abs < tol then (⟨[record], bracket, .smallValue⟩, s)
        else
          let (descent, s) :=
            descend sample tol budget (iteration + 1) (bracket.half fLeft fMid)
              (if changesSign fLeft fMid then fLeft else fMid) s
          (descent.cons record, s)
    else (.stop tol bracket, s)

inductive Course where
  | endFailed (e : DivisionByZero)
  | endpoint (root value : Float)
  /-- The values at the ends have no opposite signs. -/
  | noSignChange (fa fb : Float)
  /-- The interval is narrow from the start, and only its midpoint is sampled. -/
  | narrow (midpoint : Float) (outcome : Except DivisionByZero Float)
  /-- The interval is halved; `fa` is the value at its left end. -/
  | halved (fa : Float) (descent : Descent)

def cap (bracket : Bracket) (cfg : BisectionConfig) : UInt64 :=
  iterationCap bracket.left bracket.right cfg.tolerance.value cfg.safetyMargin

def explore {σ : Type} (sample : Sampler σ) (bracket : Bracket) (cfg : BisectionConfig) (s : σ) :
    Course × σ :=
  let tol := cfg.tolerance.value
  match sample bracket.left s with
  | (.error e, s) => (.endFailed e, s)
  | (.ok fa, s) =>
    match sample bracket.right s with
    | (.error e, s) => (.endFailed e, s)
    | (.ok fb, s) =>
      if fa.abs < tol then (.endpoint bracket.left fa, s)
      else if fb.abs < tol then (.endpoint bracket.right fb, s)
      else if !changesSign fa fb then (.noSignChange fa fb, s)
      else if bracket.width ≤ tol then
        let (outcome, s) := sample bracket.midpoint s
        (.narrow bracket.midpoint outcome, s)
      else
        let (descent, s) := descend sample tol (cap bracket cfg).toNat 1 bracket fa s
        (.halved fa descent, s)

def Ending.status : Ending → Except SolverError ToleranceStatus
  | smallValue => .ok .absFxReached
  | narrow => .ok .widthTolReached
  | capReached => .ok .toleranceNotReached
  | failed e => .error (.arithmetic e)

/-- The last midpoint of a descent and the value there; without any halving, the left end of the
interval. -/
def Descent.last (d : Descent) (bracket : Bracket) (fa : Float) : Float × Float :=
  match d.records.getLast? with
  | some record => (record.midpoint, record.fMid)
  | none => (bracket.left, fa)

def Course.result (course : Course) (bracket : Bracket) (evaluations cacheHits : Nat) :
    Except SolverError (Report BisectionRecord) :=
  let report root fRoot status trace : Report BisectionRecord :=
    ⟨root, fRoot, evaluations, cacheHits, status, .bisection, trace⟩
  match course with
  | endFailed e => .error (.arithmetic e)
  | endpoint root value => .ok (report root value .absFxReached [])
  | noSignChange fa fb => .error (.noSignChange bracket.left bracket.right fa fb)
  | narrow midpoint (.ok value) => .ok (report midpoint value .widthTolReached [])
  | narrow _ (.error e) => .error (.arithmetic e)
  | halved fa descent => do
    let status ← descent.ending.status
    let (root, fRoot) := descent.last bracket fa
    return report root fRoot status descent.records

def intervalText (bracket : Bracket) : String :=
  s!"[{Decimal.text bracket.left}, {Decimal.text bracket.right}]"

def recordEntry (r : BisectionRecord) : LogEntry :=
  ⟨.trace, s!"bisection iter {r.iteration}: {intervalText r.bracket} "
    ++ s!"mid={Decimal.text r.midpoint} f(mid)={Decimal.text r.fMid}"⟩

def startEntry (bracket : Bracket) (cfg : BisectionConfig) : LogEntry :=
  ⟨.debug, s!"bisection on {intervalText bracket}, tol={Decimal.text cfg.tolerance.value}, "
    ++ s!"iteration cap={cap bracket cfg}"⟩

/-- The messages about the end of a descent. A failure is reported as such and not logged. -/
def endEntries (bracket : Bracket) (cfg : BisectionConfig) (fa : Float) (d : Descent) :
    List LogEntry :=
  let (root, fRoot) := d.last bracket fa
  let finished (status : ToleranceStatus) : LogEntry :=
    ⟨.debug, s!"bisection finished after {d.records.length} iterations: "
      ++ s!"root={Decimal.text root}, f(root)={Decimal.text fRoot}, {status.name}"⟩
  match d.ending.status with
  | .error _ => []
  | .ok .toleranceNotReached =>
    [⟨.warn, s!"bisection stopped at iteration cap {cap bracket cfg} "
      ++ s!"with width {Decimal.text d.bracket.width} > tol {Decimal.text cfg.tolerance.value}"⟩,
      finished .toleranceNotReached]
  | .ok status => [finished status]

def Course.log (course : Course) (bracket : Bracket) (cfg : BisectionConfig) : List LogEntry :=
  match course with
  | endFailed _ => []
  | endpoint root value =>
    [⟨.debug, s!"bisection: endpoint {Decimal.text root} is already a root "
      ++ s!"(f={Decimal.text value})"⟩]
  | noSignChange _ _ => []
  | narrow _ _ => [startEntry bracket cfg]
  | halved fa descent =>
    startEntry bracket cfg :: descent.records.map recordEntry
      ++ endEntries bracket cfg fa descent

/-- The distance from 1 to the next larger double. -/
def resolution : Float := 2.220446049250313e-16

def caution (bracket : Bracket) (cfg : BisectionConfig) : List LogEntry :=
  let tol := cfg.tolerance.value
  if tol < bracket.width * resolution then
    [⟨.warn, s!"tolerance {Decimal.text tol} is below the float resolution of "
      ++ s!"{intervalText bracket}; the width criterion may never be met"⟩]
  else []

end Bisection

open Bisection in
/-- Looks for a root of `f` in an interval. Every sample goes through a cache, so that the points in
one bucket are sampled once; beside the outcome, the state of `f` is returned. -/
def bisection {σ : Type} (f : Sampler σ) (bracket : Bracket) (cfg : BisectionConfig) (s : σ) :
    Outcome SolverError BisectionRecord × σ :=
  if !bracket.isProper then (⟨.error (.invalidBounds bracket.left bracket.right), []⟩, s)
  else
    match SampleCache.ofTolerance cfg.tolerance s with
    | .error e => (⟨.error e, caution bracket cfg⟩, s)
    | .ok cache =>
      let (course, cache) := explore (SampleCache.sample f) bracket cfg cache
      (⟨course.result bracket cache.evaluations cache.hits,
        caution bracket cfg ++ course.log bracket cfg⟩, cache.source)

end FormulaRoots
