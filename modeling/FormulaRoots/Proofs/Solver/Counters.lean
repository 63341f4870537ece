import FormulaRoots.Proofs.Solver.Failures
import FormulaRoots.Proofs.Solver.Trace

/-! What the counters of a report say. Every sample is counted once, as a call or as a stored value that was
used, and no bucket is called for twice. -/
namespace FormulaRoots
open Sampler MemoTable

structure Report.Tallies {ρ : Type} (report : Report ρ) (step : Float) (points : List Float)
    (calls : List Call) : Prop where
  evaluations_eq : report.evaluations = calls.length
  total_eq : report.evaluations + report.cacheHits = points.length
  /-- The calls are those of visits to a table, and where an argument was rounded they differ. -/
  distinct : ∃ visits, History step visits ∧ points = visits.map Visit.argument ∧
    calls = visits.flatMap Visit.calls ∧
    (Visit.roundedArguments step visits).Pairwise fun x y => ¬ (x == y) = true
  /-- If all points can be rounded, there is one call for each bucket. -/
  buckets : (∀ x ∈ points, bucketOf step x ≠ none) →
    report.evaluations = (points.filterMap (bucketOf step)).dedup.length

/-- The counters of a ledger without a failure. -/
theorem Ledger.tallies {ρ : Type} {step : Float} {visits : List Visit} {samples calls : List Call}
    {report : Report ρ} (h : Ledger step visits samples calls report.evaluations report.cacheHits)
    (hok : EndsWith samples none) {points : List Float} (hpoints : samples.map Call.argument = points) :
    report.Tallies step points calls := by
  have hvisits : points = visits.map Visit.argument := by
    rw [← hpoints, h.samples_eq, List.map_map]
    rfl
  have hsucceed : ∀ v ∈ visits, v.sample.Succeeds := by
    intro v hv
    rw [h.samples_eq] at hok
    exact hok v.sample (List.mem_map_of_mem hv)
  constructor
  case evaluations_eq => exact h.evaluations_eq
  case total_eq =>
    rw [h.evaluations_eq, h.hits_eq, h.calls_eq, h.history.length_calls_add_hits, hvisits, List.length_map]
  case distinct =>
    exact ⟨visits, h.history, hvisits, h.calls_eq, h.history.roundedArguments_distinct hsucceed⟩
  case buckets =>
    rw [hvisits, List.forall_mem_map]
    intro hbuckets
    rw [h.evaluations_eq, h.calls_eq, h.history.length_calls_eq hsucceed hbuckets]

namespace Bisection

structure Accounts (bracket : Bracket) (tol fa fb : Float) (report : Report BisectionRecord)
    (points : List Float) : Prop where
  endpoint : fa.abs < tol ∨ fb.abs < tol → points = [bracket.left, bracket.right] ∧
    report.root = (if fa.abs < tol then bracket.left else bracket.right) ∧ report.trace = [] ∧
    report.evaluations + report.cacheHits = 2
  narrow : ¬ fa.abs < tol → ¬ fb.abs < tol → bracket.right - bracket.left ≤ tol →
    points = [bracket.left, bracket.right, report.root] ∧
    report.root = bracket.left + (bracket.right - bracket.left) / 2.0 ∧ report.trace = [] ∧
    report.evaluations + report.cacheHits = 3
  halved : ¬ fa.abs < tol → ¬ fb.abs < tol → ¬ bracket.right - bracket.left ≤ tol →
    points = bracket.left :: bracket.right :: report.trace.map BisectionRecord.midpoint ∧
    report.evaluations + report.cacheHits = report.iterations + 2

variable {σ : Type} {f : Sampler σ} {bracket : Bracket} {cfg : BisectionConfig} {s : σ}

private theorem Course.of_ok {course : Course} {evaluations hits : Nat}
    {report : Report BisectionRecord} (h : course.result bracket evaluations hits = .ok report) :
    course.failure? = none ∧ report.evaluations = evaluations ∧ report.cacheHits = hits := by
  constructor
  · cases hfailure : course.failure? with
    | none => rfl
    | some e =>
      rw [Course.result_of_failure hfailure] at h
      cases h
  · cases course with
    | endFailed e => cases h
    | endpoint root value =>
      cases h
      exact ⟨rfl, rfl⟩
    | noSignChange fa fb => cases h
    | narrow midpoint outcome =>
      cases outcome with
      | error e => cases h
      | ok value =>
        cases h
        exact ⟨rfl, rfl⟩
    | halved fa d =>
      rw [Course.result] at h
      cases hs : d.ending.status with
      | error e =>
        rw [hs] at h
        cases h
      | ok status =>
        rw [hs] at h
        cases h
        exact ⟨rfl, rfl⟩

private theorem Selects.accounts {fa fb : Float} {course : Course} {later : List Call}
    (h : Selects bracket cfg fa fb course later) {samples : List Call}
    (hsamples : samples = ⟨bracket.left, .ok fa⟩ :: ⟨bracket.right, .ok fb⟩ :: later)
    (hexplores : Explores bracket cfg course samples) {evaluations hits : Nat}
    {report : Report BisectionRecord} (hreport : course.result bracket evaluations hits = .ok report)
    (htotal : report.evaluations + report.cacheHits = samples.length) :
    Accounts bracket cfg.tolerance.value fa fb report (samples.map Call.argument) := by
  cases h with
  | left small =>
    cases hreport
    rw [hsamples] at htotal ⊢
    exact ⟨fun _ => ⟨rfl, (if_pos small).symm, rfl, htotal⟩, fun hleft => absurd small hleft,
      fun hleft => absurd small hleft⟩
  | right left small =>
    cases hreport
    rw [hsamples] at htotal ⊢
    exact ⟨fun _ => ⟨rfl, (if_neg left).symm, rfl, htotal⟩, fun _ hright => absurd small hright,
      fun _ hright => absurd small hright⟩
  | noSignChange => cases hreport
  | narrow left right opposite narrow outcome =>
    cases outcome with
    | error e => cases hreport
    | ok value =>
      cases hreport
      rw [hsamples] at htotal ⊢
      exact ⟨fun hsmall => absurd hsmall (not_or.mpr ⟨left, right⟩), fun _ _ _ => ⟨rfl, rfl, rfl, htotal⟩,
        fun _ _ hwide => absurd narrow hwide⟩
  | halved left right opposite wide d later =>
    obtain ⟨hstatus, htrace, -⟩ := Course.isReported_of_ok hreport
    subst hsamples
    cases hexplores with
    | halved _ _ _ _ _ _ _ halvings =>
      have hlater := halvings.calls_eq hstatus
      refine ⟨fun hsmall => absurd hsmall (not_or.mpr ⟨left, right⟩), fun _ _ hnarrow => absurd hnarrow wide,
        fun _ _ _ => ⟨?_, ?_⟩⟩
      · rw [hlater, htrace, List.map_cons, List.map_cons, List.map_map]
        rfl
      · rw [htotal, hlater, Report.iterations, htrace, List.length_cons, List.length_cons, List.length_map]

private theorem tallies_of_ok {report : Report BisectionRecord}
    (h : (bisection f bracket cfg s).1.result = .ok report) :
    let samples := samples f bracket cfg s
    let points := samples.map Call.argument
    report.Tallies (SampleCache.stepFor cfg.tolerance.value) points (calls f bracket cfg s) ∧
    ∃ fa fb, samples.take 2 = [⟨bracket.left, .ok fa⟩, ⟨bracket.right, .ok fb⟩] ∧
      Accounts bracket cfg.tolerance.value fa fb report points := by
  obtain ⟨hb, hs⟩ := accepted_of_ok h
  obtain ⟨course, visits, evaluations, hits, hexplores, hselected, hresult, hledger⟩ :=
    explores_with_ledger f s hb hs
  have hreport := hresult.symm.trans h
  obtain ⟨hfailure, rfl, rfl⟩ := Course.of_ok hreport
  have hok := hexplores.endsWith
  rw [hfailure] at hok
  have htallies := hledger.tallies hok rfl
  refine ⟨htallies, ?_⟩
  obtain ⟨e, rfl⟩ | ⟨fa, fb, later, hselects, hsamples⟩ := hselected
  · cases hfailure
  · have htotal := htallies.total_eq.trans (List.length_map _)
    exact ⟨fa, fb, congrArg (List.take 2) hsamples, hselects.accounts hsamples hexplores hreport htotal⟩

end Bisection

namespace FixedPoint

/-- Steps that are reported have not failed, and the counters are taken over. -/
theorem Course.of_ok {c : Course} {x0 : Float} {evaluations hits : Nat} {report : Report FixedPointRecord}
    (h : c.result x0 evaluations hits = .ok report) :
    c.ending.failure? = none ∧ report.evaluations = evaluations ∧ report.cacheHits = hits := by
  rw [Course.result] at h
  cases hending : c.ending with
  | failed e =>
    rw [hending] at h
    cases h
  | _ =>
    rw [hending] at h
    cases h
    exact ⟨rfl, rfl, rfl⟩

private theorem tallies_of_ok {σ : Type} {g : Sampler σ} {x0 : Float} {cfg : FixedPointConfig} {s : σ}
    {report : Report FixedPointRecord} (h : (fixedPoint g x0 cfg s).1.result = .ok report) :
    let points := report.trace.map FixedPointRecord.current
    (samples g x0 cfg s).map Call.argument = points ∧
    report.Tallies (SampleCache.stepFor cfg.tolerance.value) points (calls g x0 cfg s) ∧
    report.evaluations + report.cacheHits = report.iterations := by
  intro points
  obtain ⟨c, visits, evaluations, hits, hsteps, hresult, hledger⟩ :=
    steps_with_ledger g x0 s (accepted_of_ok h)
  have hreport := hresult.symm.trans h
  obtain ⟨hfailure, rfl, rfl⟩ := Course.of_ok hreport
  have hok := hsteps.endsWith
  rw [hfailure] at hok
  obtain ⟨hstatus, htrace, -⟩ := Course.isReported_of_ok hreport
  have hpoints : (samples g x0 cfg s).map Call.argument = points := by
    rw [hsteps.calls_eq hstatus, List.map_map, ← htrace]
    rfl
  have htallies := hledger.tallies hok hpoints
  exact ⟨hpoints, htallies, htallies.total_eq.trans (List.length_map _)⟩

end FixedPoint

/-- The counters of a report account for every sample: for the ends and for what comes after them in a
bisection, and for the points of the trace in a fixed-point iteration. -/
theorem counters_account_for_samples {σ : Type} (f : Sampler σ) (s : σ) :
    (∀ bracket cfg report, (bisection f bracket cfg s).1.result = .ok report →
      let samples := Bisection.samples f bracket cfg s
      let points := samples.map Call.argument
      report.Tallies (cfg.tolerance.value * 0.01) points (Bisection.calls f bracket cfg s) ∧
      ∃ fa fb, samples.take 2 = [⟨bracket.left, .ok fa⟩, ⟨bracket.right, .ok fb⟩] ∧
        Bisection.Accounts bracket cfg.tolerance.value fa fb report points) ∧
    (∀ x0 cfg report, (fixedPoint f x0 cfg s).1.result = .ok report →
      let points := report.trace.map FixedPointRecord.current
      (FixedPoint.samples f x0 cfg s).map Call.argument = points ∧
      report.Tallies (cfg.tolerance.value * 0.01) points (FixedPoint.calls f x0 cfg s) ∧
      report.evaluations + report.cacheHits = report.iterations) :=
  ⟨fun _ _ _ => Bisection.tallies_of_ok, fun _ _ _ => FixedPoint.tallies_of_ok⟩

/-- Points that are visited again: the midpoint of two doubles between which there is no third is the left
one, and a change of sign alternates between two points. -/
theorem counters_account_for_samples_revisited :
    let f : Sampler Nat := fun x n => (.ok (if x ≤ 9223372036854775808.0 then -1000.0 else 1000.0), n + 1)
    let g : Sampler Nat := fun x n => (.ok (-x), n + 1)
    let bracket : Bracket := ⟨9223372036854775808.0, 9223372036854777856.0⟩
    let cfg : BisectionConfig := ⟨⟨512.0, by decide +kernel⟩, 0⟩
    let steps : FixedPointConfig := ⟨⟨2.0, by decide +kernel⟩, 4, by decide⟩
    (∃ report points, (bisection f bracket cfg 0).1.result = .ok report ∧
      report.Tallies (512.0 * 0.01) points (Bisection.calls f bracket cfg 0) ∧
      (report.evaluations, report.cacheHits, report.iterations) = (2, 2, 2) ∧
      ∃ fa fb, Bisection.Accounts bracket 512.0 fa fb report points) ∧
    ∃ report, (fixedPoint g 1.0 steps 0).1.result = .ok report ∧
      report.Tallies (2.0 * 0.01) [1.0, -1.0, 1.0, -1.0] (FixedPoint.calls g 1.0 steps 0) ∧
      (report.evaluations, report.cacheHits, report.iterations) = (2, 2, 4) := by
  intro f g bracket cfg steps
  constructor
  · let record (i : Nat) : BisectionRecord := .ofBracket i bracket (-1000.0)
    let report : Report BisectionRecord :=
      ⟨bracket.left, -1000.0, 2, 2, .toleranceNotReached, .bisection, [record 1, record 2]⟩
    have hreport : (bisection f bracket cfg 0).1.result = .ok report := ok_of_toOption (by decide +kernel)
    obtain ⟨htallies, fa, fb, -, haccounts⟩ :=
      (counters_account_for_samples f 0).1 bracket cfg report hreport
    exact ⟨report, _, hreport, htallies, rfl, fa, fb, haccounts⟩
  · let report : Report FixedPointRecord := ⟨-1.0, 1.0, 2, 2, .toleranceNotReached, .fixedPoint,
      [⟨1, 1.0, -1.0, 2.0⟩, ⟨2, -1.0, 1.0, 2.0⟩, ⟨3, 1.0, -1.0, 2.0⟩, ⟨4, -1.0, 1.0, 2.0⟩]⟩
    have hreport : (fixedPoint g 1.0 steps 0).1.result = .ok report := ok_of_toOption (by decide +kernel)
    obtain ⟨-, htallies, -⟩ := (counters_account_for_samples g 0).2 1.0 steps report hreport
    exact ⟨report, hreport, htallies, rfl⟩

end FormulaRoots
