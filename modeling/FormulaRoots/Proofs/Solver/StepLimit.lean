import FormulaRoots.Proofs.Solver.Counters
import Mathlib.Data.Nat.Basic
import Mathlib.Order.Basic

/-! The step limit of a fixed-point iteration. A larger one allows more steps and changes nothing else: a run
that was not stopped at its limit stays as it is, and one that was goes on from there. -/
namespace FormulaRoots
open Sampler

namespace FixedPoint
open FixedPointRecord
variable {σ : Type}

def Course.followedBy (c c' : Course) : Course :=
  { c' with records := c.records ++ c'.records }

/-- A run that was not stopped at its limit is the same with more steps allowed, and one that was goes on from
the point to which its steps led. -/
theorem iterate_add (sample : Sampler σ) (tol : Float) (budget more number : Nat) (current : Float)
    (s : σ) :
    let r := iterate sample tol budget number current s
    let r' := iterate sample tol (budget + more) number current s
    r.1.ending ≠ .limitReached ∧ r' = r ∨ r.1.ending = .limitReached ∧
      let rest := iterate sample tol more (number + budget) (arrival current r.1.records) r.2
      r' = (r.1.followedBy rest.1, rest.2) := by
  induction budget generalizing number current s with
  | zero =>
    intro r r'
    refine .inr ⟨rfl, ?_⟩
    intro rest
    exact congrArg (iterate sample tol · number current s) (Nat.zero_add more)
  | succ budget ih =>
    rw [Nat.succ_add, iterate, iterate]
    rcases sample current s with ⟨e | next, s₁⟩
    · exact .inl ⟨by simp, rfl⟩
    · by_cases hshort : (ofStep number current next).error < tol
      · simp only [if_pos hshort]
        exact .inl ⟨by simp, trivial⟩
      · simp only [if_neg hshort]
        rcases ih (number + 1) next s₁ with ⟨hending, hsame⟩ | ⟨hending, hrest⟩
        · rw [hsame]
          exact .inl ⟨hending, rfl⟩
        · rw [hrest, Nat.add_right_comm]
          exact .inr ⟨hending, rfl⟩

private theorem calls_iterate (sample : Sampler σ) (tol : Float) (budget number : Nat) (current : Float)
    (r : Recorded σ) :
    r.calls <:+ (iterate (recorded sample) tol budget number current r).2.calls := by
  rw [iterate_eq_run]
  exact Inquiry.calls_run ..

structure Extends (limit : Nat) (samples samples' : List Call)
    (result result' : Except SolverError (Report FixedPointRecord)) : Prop where
  error : ∀ e, result = .error e → result' = .error e
  converged : ∀ report, result = .ok report → report.terminationReason = .toleranceReached →
    result' = .ok report
  /-- From the limit the run goes on: it fails later, or it is reported with a longer trace, in which the
  last record of the shorter run tells its root and the value there. -/
  limit : ∀ report, result = .ok report → report.terminationReason = .iterationLimit →
    samples.length = limit ∧ samples <+: samples' ∧
    ((∃ e, result' = .error (.arithmetic e)) ∨
      ∃ report', result' = .ok report' ∧ report.trace <+: report'.trace ∧
        ∃ r, report'.trace[limit - 1]? = some r ∧ r.current = report.root ∧ r.next = report.fRoot)

private theorem Course.IsReported.ending_eq {c : Course} {x0 : Float} {report : Report FixedPointRecord}
    (h : c.IsReported x0 report) (hreason : report.terminationReason = .iterationLimit) :
    c.ending = .limitReached ∧ report.status = .toleranceNotReached := by
  have hs := h.status
  rw [Report.terminationReason] at hreason
  cases hending : c.ending with
  | limitReached =>
    rw [hending] at hs
    exact ⟨rfl, (Except.ok.inj hs).symm⟩
  | shortStep =>
    rw [hending] at hs
    rw [← Except.ok.inj hs] at hreason
    cases hreason
  | failed e =>
    rw [hending] at hs
    cases hs

private theorem Extends.of_same {limit : Nat} {samples : List Call}
    {result : Except SolverError (Report FixedPointRecord)}
    (h : ∀ report, result = .ok report → report.terminationReason ≠ .iterationLimit) :
    Extends limit samples samples result result where
  error _ he := he
  converged _ hreport _ := hreport
  limit report hreport hreason := absurd hreason (h report hreport)

private theorem Course.result_followedBy (c c' : Course) (x0 : Float) (evaluations hits : Nat) :
    (∃ e, (c.followedBy c').result x0 evaluations hits = .error (.arithmetic e)) ∨
      ∃ report, (c.followedBy c').result x0 evaluations hits = .ok report ∧
        c.records <+: report.trace := by
  cases hresult : (c.followedBy c').result x0 evaluations hits with
  | error e =>
    obtain ⟨cause, -, rfl⟩ := Course.result_eq_error_iff.mp hresult
    exact .inl ⟨cause, rfl⟩
  | ok report =>
    have htrace := (Course.isReported_of_ok hresult).trace
    exact .inr ⟨report, rfl, htrace ▸ List.prefix_append ..⟩

private theorem Steps.extends_followedBy {tol : Float} {limit : Nat} {x0 : Float} {c : Course}
    {calls calls' : List Call} (h : Steps tol limit 1 x0 c calls) (hpos : 0 < limit)
    (hending : c.ending = .limitReached) (hcalls : calls <+: calls') (c' : Course)
    (evaluations hits evaluations' hits' : Nat) :
    Extends limit calls calls' (c.result x0 evaluations hits)
      ((c.followedBy c').result x0 evaluations' hits') where
  error e he := by
    rw [Course.result, hending] at he
    cases he
  converged report hreport hconverged := by
    rw [Course.result, hending] at hreport
    cases hreport
    cases hconverged
  limit report hreport hreason := by
    have hreported := Course.isReported_of_ok hreport
    have hrecounts := h.recounts hpos hreported
    have hlength : report.trace.length = limit := hrecounts.limit (hreported.ending_eq hreason).2
    obtain ⟨r, hlast, hroot, hvalue, -, -⟩ := hrecounts.last
    refine ⟨?_, hcalls, ?_⟩
    · rw [hrecounts.samples_eq, List.length_map, hlength]
    · rcases c.result_followedBy c' x0 evaluations' hits' with hfails | ⟨report', hreport', hprefix⟩
      · exact .inl hfails
      · rw [← hreported.trace] at hprefix
        refine .inr ⟨report', hreport', hprefix, r, ?_, hroot.symm, hvalue.symm⟩
        rw [List.getLast?_eq_getElem?, hlength] at hlast
        obtain ⟨later, htrace⟩ := hprefix
        obtain ⟨hlt, -⟩ := List.getElem?_eq_some_iff.mp hlast
        rw [← htrace, List.getElem?_append_left hlt, hlast]

/-- With more steps allowed a run is extended. -/
theorem extends_iterate (sample : Sampler σ) (tol x0 : Float) {m : Nat} (hm : 1 ≤ m) (more : Nat) (s : σ)
    (evaluations hits : σ → Nat) :
    let r := iterate (recorded sample) tol m 1 x0 (.start s)
    let r' := iterate (recorded sample) tol (m + more) 1 x0 (.start s)
    Extends m r.2.calls.reverse r'.2.calls.reverse
      (r.1.result x0 (evaluations r.2.state) (hits r.2.state))
      (r'.1.result x0 (evaluations r'.2.state) (hits r'.2.state)) := by
  intro r r'
  rcases iterate_add (recorded sample) tol m more 1 x0 (.start s) with
    ⟨hending, hsame⟩ | ⟨hending, hrest⟩
  · rw [show r' = r from hsame]
    refine .of_same fun report hreport hreason => hending ?_
    exact ((Course.isReported_of_ok hreport).ending_eq hreason).1
  · have hsteps := steps_of_start sample tol m 1 x0 s
    have hlater : r.2.calls <:+ r'.2.calls := by
      rw [show r' = _ from hrest]
      exact calls_iterate ..
    rw [show r'.1 = _ from congrArg Prod.fst hrest]
    exact hsteps.extends_followedBy hm hending (List.reverse_prefix.mpr hlater) _ _ _ _ _

end FixedPoint

/-- A larger step limit only extends a fixed-point iteration. An error and the report of a run that converged
are those of the smaller limit. -/
theorem fixedPoint_of_larger_limit {σ : Type} (g : Sampler σ) (x0 : Float) (tolerance : Tolerance) (s : σ)
    {m n : Nat} (hm : 1 ≤ m) (h : m ≤ n) :
    let cfg : FixedPointConfig := ⟨tolerance, m, hm⟩
    let cfg' : FixedPointConfig := ⟨tolerance, n, hm.trans h⟩
    FixedPoint.Extends m (FixedPoint.samples g x0 cfg s) (FixedPoint.samples g x0 cfg' s)
      (fixedPoint g x0 cfg s).1.result (fixedPoint g x0 cfg' s).1.result := by
  intro cfg cfg'
  by_cases hs : isRoundingStep (SampleCache.stepFor tolerance.value) = true
  · obtain ⟨hresult, hsamples⟩ := FixedPoint.result_and_samples g x0 cfg s hs
    obtain ⟨hresult', hsamples'⟩ := FixedPoint.result_and_samples g x0 cfg' s hs
    obtain ⟨more, rfl⟩ := Nat.exists_eq_add_of_le h
    rw [hresult, hsamples, hresult', hsamples']
    exact FixedPoint.extends_iterate (SampleCache.sample g) tolerance.value x0 hm more _
      SampleCache.evaluations SampleCache.hits
  · have hstep (limit : Nat) (hpos : 0 < limit) : ¬ isRoundingStep
        (SampleCache.stepFor (FixedPointConfig.mk tolerance limit hpos).tolerance.value) = true := hs
    rw [FixedPoint.samples_of_no_step (hstep m hm), FixedPoint.samples_of_no_step (hstep n (hm.trans h)),
      FixedPoint.fixedPoint_of_no_step (hstep m hm), FixedPoint.fixedPoint_of_no_step (hstep n (hm.trans h))]
    exact .of_same nofun

/-- Halving comes to a short step after six steps, the second of which is where a limit of two stops. -/
theorem fixedPoint_of_larger_limit_halving :
    let g : Sampler Nat := fun x n => (.ok (x / 2.0), n + 1)
    let tolerance : Tolerance := ⟨0.03125, by decide +kernel⟩
    let cfg : FixedPointConfig := ⟨tolerance, 2, by decide⟩
    let cfg' : FixedPointConfig := ⟨tolerance, 9, by decide⟩
    let report : Report FixedPointRecord := ⟨0.5, 0.25, 2, 0, .toleranceNotReached, .fixedPoint,
      [⟨1, 1.0, 0.5, 0.5⟩, ⟨2, 0.5, 0.25, 0.25⟩]⟩
    let report' : Report FixedPointRecord := ⟨0.03125, 0.015625, 6, 0, .stepSizeReached, .fixedPoint,
      report.trace ++ [⟨3, 0.25, 0.125, 0.125⟩, ⟨4, 0.125, 0.0625, 0.0625⟩, ⟨5, 0.0625, 0.03125, 0.03125⟩,
        ⟨6, 0.03125, 0.015625, 0.015625⟩]⟩
    1 ≤ 2 ∧ 2 ≤ 9 ∧
    (fixedPoint g 1.0 cfg 0).1.result = .ok report ∧ (fixedPoint g 1.0 cfg' 0).1.result = .ok report' ∧
    FixedPoint.samples g 1.0 cfg 0 <+: FixedPoint.samples g 1.0 cfg' 0 ∧
    ∃ r, report'.trace[1]? = some r ∧ r.current = report.root ∧ r.next = report.fRoot := by
  intro g tolerance cfg cfg' report report'
  have hm : 1 ≤ 2 := by decide
  have hn : 2 ≤ 9 := by decide
  have hshort : (fixedPoint g 1.0 cfg 0).1.result = .ok report := ok_of_toOption (by decide +kernel)
  have hlong : (fixedPoint g 1.0 cfg' 0).1.result = .ok report' := ok_of_toOption (by decide +kernel)
  obtain ⟨-, hsamples, ⟨e, he⟩ | ⟨longer, hlonger, -, hlast⟩⟩ :=
    (fixedPoint_of_larger_limit g 1.0 tolerance 0 hm hn).limit report hshort rfl
  · rw [hlong] at he
    cases he
  · obtain rfl : report' = longer := Except.ok.inj (hlong.symm.trans hlonger)
    exact ⟨hm, hn, hshort, hlong, hsamples, hlast⟩

end FormulaRoots
