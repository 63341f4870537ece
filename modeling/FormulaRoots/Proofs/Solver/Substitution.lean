import FormulaRoots.Proofs.Solver.Agreement

/-! What a report tells of a fixed-point iteration. Its trace records every step, each one from the point
to which the one before it led, and its status tells whether the last step was short. -/
namespace FormulaRoots

namespace FixedPointRecord

def call (r : FixedPointRecord) : Sampler.Call :=
  ⟨r.current, .ok r.next⟩

def arrival (start : Float) (records : List FixedPointRecord) : Float :=
  records.foldl (fun _ r => r.next) start

private theorem arrival_take_succ (start : Float) {records : List FixedPointRecord} {i : Nat}
    {r : FixedPointRecord} (h : records[i]? = some r) :
    arrival start (records.take (i + 1)) = r.next := by
  rw [List.take_add_one, h, arrival, List.foldl_append]
  rfl

end FixedPointRecord

namespace FixedPoint
open FixedPointRecord
variable {σ : Type}

/-- The samples of a fixed-point iteration, the first one first, with the outcomes that its cache gives.
A tolerance that is refused is followed by no sample. -/
def samples (g : Sampler σ) (x0 : Float) (cfg : FixedPointConfig) (s : σ) : List Sampler.Call :=
  match SampleCache.ofTolerance cfg.tolerance s with
  | .error _ => []
  | .ok cache =>
    (iterate (Sampler.recorded (SampleCache.sample g)) cfg.tolerance.value cfg.maxIter 1 x0
      (.start cache)).2.calls.reverse

/-- Steps from `current` on, at most `budget` of them and the first one with the given number, with the
samples that they take. -/
inductive Steps (tol : Float) : Nat → Nat → Float → Course → List Sampler.Call → Prop
  | limitReached {number : Nat} {current : Float} :
      Steps tol 0 number current ⟨[], .limitReached⟩ []
  | failed {budget number : Nat} {current : Float} (e : DivisionByZero) :
      Steps tol (budget + 1) number current ⟨[], .failed e⟩ [⟨current, .error e⟩]
  | shortStep {budget number : Nat} {current : Float} (next : Float)
      (short : (ofStep number current next).error < tol) :
      Steps tol (budget + 1) number current ⟨[.ofStep number current next], .shortStep⟩
        [⟨current, .ok next⟩]
  | longStep {budget number : Nat} {current : Float} {c : Course} {calls : List Sampler.Call}
      (next : Float) (long : ¬ (ofStep number current next).error < tol)
      (rest : Steps tol budget (number + 1) next c calls) :
      Steps tol (budget + 1) number current (c.cons (.ofStep number current next))
        (⟨current, .ok next⟩ :: calls)

/-- Every run of the loop is a sequence of steps. -/
theorem steps_iterate (sample : Sampler σ) (tol : Float) (budget number : Nat) (current : Float)
    (r : Sampler.Recorded σ) :
    ∃ calls, (iterate (Sampler.recorded sample) tol budget number current r).2.calls
        = calls.reverse ++ r.calls ∧
      Steps tol budget number current
        (iterate (Sampler.recorded sample) tol budget number current r).1 calls := by
  induction budget generalizing number current r with
  | zero => exact ⟨[], rfl, .limitReached⟩
  | succ budget ih =>
    unfold iterate
    simp only [Sampler.recorded]
    rcases sample current r.state with ⟨e | next, s⟩
    · exact ⟨_, rfl, .failed e⟩
    · by_cases hshort : (ofStep number current next).error < tol
      · simp only [if_pos hshort]
        exact ⟨[⟨current, .ok next⟩], rfl, .shortStep next hshort⟩
      · obtain ⟨calls, hcalls, hrest⟩ := ih (number + 1) next ⟨s, ⟨current, .ok next⟩ :: r.calls⟩
        simp only [if_neg hshort]
        refine ⟨⟨current, .ok next⟩ :: calls, ?_, .longStep next hshort hrest⟩
        rw [List.reverse_cons, List.append_assoc]
        exact hcalls

/-- Every run of the loop from no record on is a sequence of steps with the samples on record. -/
theorem steps_of_start (sample : Sampler σ) (tol : Float) (budget number : Nat) (current : Float) (s : σ) :
    Steps tol budget number current
      (iterate (Sampler.recorded sample) tol budget number current (.start s)).1
      (iterate (Sampler.recorded sample) tol budget number current (.start s)).2.calls.reverse := by
  obtain ⟨calls, hcalls, hsteps⟩ := steps_iterate sample tol budget number current (.start s)
  rw [hcalls, Sampler.Recorded.start, List.append_nil, List.reverse_reverse]
  exact hsteps

def Ending.Fits (tol : Float) (budget : Nat) (records : List FixedPointRecord) : Ending → Prop
  | shortStep => ∃ r, records.getLast? = some r ∧ r.error < tol
  | limitReached => (∀ r ∈ records, ¬ r.error < tol) ∧ records.length = budget
  | failed _ => True

private theorem Ending.Fits.cons {tol : Float} {budget : Nat} {ending : Ending}
    {records : List FixedPointRecord} (h : ending.Fits tol budget records) {r : FixedPointRecord}
    (hr : ¬ r.error < tol) : ending.Fits tol (budget + 1) (r :: records) := by
  cases ending with
  | shortStep =>
    obtain ⟨r', hlast, hshort⟩ := h
    refine ⟨r', ?_, hshort⟩
    rw [List.getLast?_cons, hlast]
    rfl
  | limitReached => exact ⟨List.forall_mem_cons.mpr ⟨hr, h.1⟩, congrArg (· + 1) h.2⟩
  | failed e => trivial

private theorem Ending.Fits.status_eq {tol : Float} {budget : Nat} {ending : Ending}
    {records : List FixedPointRecord} (h : ending.Fits tol budget records) {r : FixedPointRecord}
    (hr : records.getLast? = some r) {status : ToleranceStatus} (hs : ending.status = .ok status) :
    status = if r.error < tol then .stepSizeReached else .toleranceNotReached := by
  cases ending with
  | shortStep =>
    obtain ⟨r', hlast, hshort⟩ := h
    cases hs
    cases hr.symm.trans hlast
    rw [if_pos hshort]
  | limitReached =>
    cases hs
    rw [if_neg (h.1 r (List.mem_of_getLast? hr))]
  | failed e => cases hs

private theorem Ending.Fits.length_eq {tol : Float} {budget : Nat} {ending : Ending}
    {records : List FixedPointRecord} (h : ending.Fits tol budget records)
    (hs : ending.status = .ok .toleranceNotReached) : records.length = budget := by
  cases ending with
  | limitReached => exact h.2
  | shortStep => cases hs
  | failed e => cases hs

section
variable {tol : Float} {budget number : Nat} {current : Float} {c : Course} {calls : List Sampler.Call}

private theorem Steps.fits (h : Steps tol budget number current c calls) :
    c.ending.Fits tol budget c.records := by
  induction h with
  | limitReached => exact ⟨List.forall_mem_nil _, rfl⟩
  | failed e => trivial
  | shortStep next short => exact ⟨_, rfl, short⟩
  | longStep next long _ ih => exact ih.cons long

/-- Without a failure every sample has its record. -/
theorem Steps.calls_eq (h : Steps tol budget number current c calls) {status : ToleranceStatus}
    (hs : c.ending.status = .ok status) : calls = c.records.map call := by
  induction h with
  | limitReached => rfl
  | failed e => cases hs
  | shortStep next => rfl
  | longStep next _ _ ih =>
    rw [ih hs]
    rfl

private theorem Steps.eq_ofStep (h : Steps tol budget number current c calls) {i : Nat}
    {r : FixedPointRecord} (hr : c.records[i]? = some r) :
    r = .ofStep (number + i) (arrival current (c.records.take i)) r.next := by
  induction h generalizing i with
  | limitReached => cases hr
  | failed e => cases hr
  | shortStep next =>
    cases i with
    | zero =>
      cases hr
      rfl
    | succ i => cases hr
  | longStep next _ _ ih =>
    cases i with
    | zero =>
      cases hr
      rfl
    | succ i =>
      rw [← Nat.add_assoc, Nat.add_right_comm]
      exact ih hr

private theorem Steps.last_of_short (h : Steps tol budget number current c calls) {i : Nat}
    {r : FixedPointRecord} (hr : c.records[i]? = some r) (hshort : r.error < tol) :
    i + 1 = c.records.length := by
  induction h generalizing i with
  | limitReached => cases hr
  | failed e => cases hr
  | shortStep next =>
    cases i with
    | zero => rfl
    | succ i => cases hr
  | longStep next long _ ih =>
    cases i with
    | zero =>
      cases hr
      exact absurd hshort long
    | succ i => exact congrArg (· + 1) (ih hr)

private theorem Steps.length_le (h : Steps tol budget number current c calls) :
    c.records.length ≤ budget := by
  induction h with
  | limitReached => exact Nat.le_refl _
  | failed e => exact Nat.zero_le _
  | shortStep next => exact Nat.succ_le_succ (Nat.zero_le _)
  | longStep next _ _ ih => exact Nat.succ_le_succ ih

/-- Where a step is allowed and none fails, one is made. -/
theorem Steps.length_pos (h : Steps tol budget number current c calls) (hb : 0 < budget)
    {status : ToleranceStatus} (hs : c.ending.status = .ok status) : 0 < c.records.length := by
  cases h with
  | limitReached => exact absurd hb (Nat.lt_irrefl 0)
  | failed e => cases hs
  | shortStep next => exact Nat.succ_pos _
  | longStep next => exact Nat.succ_pos _

end

structure Course.IsReported (c : Course) (x0 : Float) (report : Report FixedPointRecord) : Prop where
  status : c.ending.status = .ok report.status
  trace : report.trace = c.records
  root : (report.root, report.fRoot) = c.last x0

/-- Steps that are reported did not fail. -/
theorem Course.isReported_of_ok {c : Course} {x0 : Float} {evaluations hits : Nat}
    {report : Report FixedPointRecord} (h : c.result x0 evaluations hits = .ok report) :
    c.IsReported x0 report := by
  rw [Course.result] at h
  cases hs : c.ending.status with
  | error e =>
    rw [hs] at h
    cases h
  | ok status =>
    rw [hs] at h
    cases h
    exact ⟨hs, rfl, rfl⟩

/-- The result and the samples of an iteration whose tolerance is accepted, by its run on a fresh cache. -/
theorem result_and_samples (g : Sampler σ) (x0 : Float) (cfg : FixedPointConfig) (s : σ)
    (hs : isRoundingStep (SampleCache.stepFor cfg.tolerance.value) = true) :
    let r := iterate (Sampler.recorded (SampleCache.sample g)) cfg.tolerance.value cfg.maxIter 1 x0
      (.start (.fresh cfg.tolerance hs s))
    (fixedPoint g x0 cfg s).1.result = r.1.result x0 r.2.state.evaluations r.2.state.hits ∧
      samples g x0 cfg s = r.2.calls.reverse := by
  obtain ⟨hcourse, hstate⟩ := (Sampler.agree_recorded (SampleCache.sample g)).run
    (iteration cfg.tolerance.value cfg.maxIter 1 x0)
    (.fresh cfg.tolerance hs s) (.start (.fresh cfg.tolerance hs s)) rfl trivial
  constructor
  · rw [fixedPoint_of_step hs, iterate_eq_run]
    simp only [hcourse, ← hstate]
  · simp only [samples, SampleCache.ofTolerance_of_step hs]

theorem samples_of_no_step {g : Sampler σ} {x0 : Float} {cfg : FixedPointConfig} {s : σ}
    (hs : ¬ isRoundingStep (SampleCache.stepFor cfg.tolerance.value) = true) :
    samples g x0 cfg s = [] := by
  simp only [samples, SampleCache.ofTolerance_of_no_step hs]

/-- A report is that of steps with the samples that were taken. -/
theorem steps_of_ok {g : Sampler σ} {x0 : Float} {cfg : FixedPointConfig} {s : σ}
    {report : Report FixedPointRecord} (h : (fixedPoint g x0 cfg s).1.result = .ok report) :
    ∃ c, Steps cfg.tolerance.value cfg.maxIter 1 x0 c (samples g x0 cfg s) ∧
      c.IsReported x0 report := by
  obtain ⟨hresult, hsamples⟩ := result_and_samples g x0 cfg s (accepted_of_ok h)
  rw [hresult] at h
  rw [hsamples]
  exact ⟨_, steps_of_start .., Course.isReported_of_ok h⟩

end FixedPoint

open FixedPointRecord in
structure Report.Recounts (report : Report FixedPointRecord) (tol : Float) (limit : Nat) (x0 : Float)
    (samples : List Sampler.Call) : Prop where
  /-- The function is sampled at the points of the trace, in their order, and `next` is what came back. -/
  samples_eq : samples = report.trace.map call
  iterations : report.iterations = report.trace.length ∧ 1 ≤ report.iterations ∧
    report.iterations ≤ limit
  iteration : ∀ (i : Nat) (r : FixedPointRecord), report.trace[i]? = some r → r.iteration = i + 1
  error : ∀ r ∈ report.trace, r.error = (r.next - r.current).abs
  first : ∀ r ∈ report.trace.head?, r.current = x0
  chained : ∀ (i : Nat) (r r' : FixedPointRecord), report.trace[i]? = some r →
    report.trace[i + 1]? = some r' → r'.current = r.next
  /-- Only the last step may be short. -/
  short : ∀ (i : Nat) (r : FixedPointRecord), report.trace[i]? = some r → r.error < tol →
    i + 1 = report.iterations
  /-- The root is where the last step starts; whether that step was short decides the status. -/
  last : ∃ r, report.trace.getLast? = some r ∧ report.root = r.current ∧ report.fRoot = r.next ∧
    report.finalError? = some r.error ∧ (report.terminationReason, report.status) =
      if r.error < tol then (.toleranceReached, .stepSizeReached)
      else (.iterationLimit, .toleranceNotReached)
  /-- The root is the start or else the point to which the last step but one led. -/
  root : (report.iterations = 1 → report.root = x0) ∧
    ∀ (i : Nat) (r : FixedPointRecord), report.trace[i]? = some r → i + 2 = report.iterations →
      report.root = r.next
  limit : report.status = .toleranceNotReached → report.iterations = limit

namespace FixedPoint
open FixedPointRecord
variable {σ : Type}

/-- The report on steps recounts them. -/
theorem Steps.recounts {tol : Float} {limit : Nat} {x0 : Float} {c : Course} {calls : List Sampler.Call}
    (h : Steps tol limit 1 x0 c calls) (hlimit : 0 < limit) {report : Report FixedPointRecord}
    (hreport : c.IsReported x0 report) : report.Recounts tol limit x0 calls := by
  obtain ⟨hs, htrace, hroot⟩ := hreport
  have hpos := h.length_pos hlimit hs
  have hne : c.records ≠ [] := List.ne_nil_of_length_pos hpos
  have hcurrent {i : Nat} {r : FixedPointRecord} (hr : c.records[i]? = some r) :
      r.current = arrival x0 (c.records.take i) :=
    congrArg FixedPointRecord.current (h.eq_ofStep hr)
  have hchained (i : Nat) (r r' : FixedPointRecord) (hr : c.records[i]? = some r)
      (hr' : c.records[i + 1]? = some r') : r'.current = r.next :=
    (hcurrent hr').trans (arrival_take_succ x0 hr)
  have hlast : c.records[c.records.length - 1]? = some (c.records.getLast hne) := by
    rw [← List.getLast?_eq_getElem?, List.getLast?_eq_some_getLast hne]
  rw [Course.last, List.getLast?_eq_some_getLast hne] at hroot
  obtain ⟨hrootCurrent, hrootNext⟩ := Prod.mk.inj hroot
  constructor
  case samples_eq => rw [h.calls_eq hs, htrace]
  case iterations =>
    rw [Report.iterations, htrace]
    exact ⟨rfl, hpos, h.length_le⟩
  case iteration =>
    rw [htrace]
    intro i r hr
    exact (congrArg FixedPointRecord.iteration (h.eq_ofStep hr)).trans (Nat.add_comm 1 i)
  case error =>
    rw [htrace]
    intro r hr
    obtain ⟨i, hi⟩ := List.mem_iff_getElem?.mp hr
    rw [h.eq_ofStep hi]
    rfl
  case first =>
    rw [htrace, List.head?_eq_getElem?]
    intro r hr
    exact hcurrent hr
  case chained =>
    rw [htrace]
    exact hchained
  case short =>
    rw [Report.iterations, htrace]
    intro i r hr hshort
    exact h.last_of_short hr hshort
  case last =>
    refine ⟨c.records.getLast hne, ?_, hrootCurrent, hrootNext, ?_, ?_⟩
    · rw [htrace, List.getLast?_eq_some_getLast hne]
    · rw [Report.finalError?, htrace, List.getLast?_eq_some_getLast hne]
      rfl
    · rw [Report.terminationReason, h.fits.status_eq (List.getLast?_eq_some_getLast hne) hs]
      split <;> rfl
  case root =>
    rw [Report.iterations, htrace, hrootCurrent]
    constructor
    · intro hone
      rw [hone] at hlast
      exact hcurrent hlast
    · intro i r hr hi
      rw [show c.records.length - 1 = i + 1 by omega] at hlast
      exact hchained i r _ hr hlast
  case limit =>
    intro hstatus
    rw [hstatus] at hs
    rw [Report.iterations, htrace]
    exact h.fits.length_eq hs

/-- Every report recounts the substitutions that led to it. -/
theorem report_recounts (g : Sampler σ) (x0 : Float) (cfg : FixedPointConfig) (s : σ)
    (report : Report FixedPointRecord) (h : (fixedPoint g x0 cfg s).1.result = .ok report) :
    report.Recounts cfg.tolerance.value cfg.maxIter x0 (samples g x0 cfg s) := by
  obtain ⟨c, hsteps, hreport⟩ := steps_of_ok h
  exact hsteps.recounts cfg.maxIter_pos hreport

/-- Halving from 1 on, with a function that counts its calls, until three steps are used up. -/
theorem report_recounts_halving :
    let g : Sampler Nat := fun x n => (.ok (x / 2.0), n + 1)
    let cfg : FixedPointConfig := ⟨⟨0.0625, by decide +kernel⟩, 3, by decide⟩
    let report : Report FixedPointRecord := ⟨0.25, 0.125, 3, 0, .toleranceNotReached, .fixedPoint,
      [⟨1, 1.0, 0.5, 0.5⟩, ⟨2, 0.5, 0.25, 0.25⟩, ⟨3, 0.25, 0.125, 0.125⟩]⟩
    (fixedPoint g 1.0 cfg 0).1.result = .ok report ∧
    report.Recounts cfg.tolerance.value cfg.maxIter 1.0 (samples g 1.0 cfg 0) := by
  intro g cfg report
  have hresult : (fixedPoint g 1.0 cfg 0).1.result = .ok report := ok_of_toOption (by decide +kernel)
  exact ⟨hresult, report_recounts g 1.0 cfg 0 report hresult⟩

end FixedPoint
end FormulaRoots
