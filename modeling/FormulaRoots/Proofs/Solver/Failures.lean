import FormulaRoots.Proofs.Solver.Calls

/-! Failures of a sampled function. A solver stops at the first call that fails and passes the failure on
as it is; it invents none, and arguments that it refuses are followed by no call. -/
namespace FormulaRoots
open Sampler

/-- A run that fails fast: a call that fails is the last one, and its failure is the result; and a result
that is a failure is that of the last call, which no other failed call precedes. -/
structure FailsFast {ρ : Type} (calls : List Call) (result : Except SolverError (Report ρ)) : Prop where
  last : ∀ (i : Nat) (x : Float) (e : DivisionByZero), calls[i]? = some ⟨x, .error e⟩ →
    i + 1 = calls.length ∧ result = .error (.arithmetic e)
  cause : ∀ e, result = .error (.arithmetic e) → ∃ earlier x,
    calls = earlier ++ [⟨x, .error e⟩] ∧ ∀ call ∈ earlier, ∃ v, call.outcome = .ok v

private theorem FailsFast.of_endsWith {ρ : Type} {calls : List Call}
    {result : Except SolverError (Report ρ)}
    {failure? : Option DivisionByZero} (h : EndsWith calls failure?)
    (hresult : ∀ e, result = .error (.arithmetic e) ↔ failure? = some e) : FailsFast calls result where
  last i x e hi := by
    obtain ⟨hlast, hfailure⟩ := h.last_of_failure hi
    exact ⟨hlast, (hresult e).mpr hfailure⟩
  cause e he := by
    rw [(hresult e).mp he] at h
    exact h

private theorem FailsFast.of_no_call {ρ : Type} {result : Except SolverError (Report ρ)}
    (h : ∀ e, result ≠ .error (.arithmetic e)) : FailsFast [] result := by
  have hnone : EndsWith [] none := List.forall_mem_nil _
  exact .of_endsWith hnone fun e => iff_of_false (h e) nofun

structure EndsSampled (step a b fa fb : Float) (samples calls : List Call) : Prop where
  samples_eq : samples = [⟨a, .ok fa⟩, ⟨b, .ok fb⟩]
  /-- There is a call for each end, or one call for both if they have one representative. -/
  calls_eq : calls = [⟨MemoTable.representative step a, .ok fa⟩, ⟨MemoTable.representative step b, .ok fb⟩] ∨
    calls = [⟨MemoTable.representative step a, .ok fa⟩] ∧ fb = fa ∧
      MemoTable.representative step b = MemoTable.representative step a

private theorem Ledger.endsSampled {step : Float} {visits : List Visit} {calls : List Call}
    {evaluations hits : Nat} {a b fa fb : Float}
    (h : Ledger step visits [⟨a, .ok fa⟩, ⟨b, .ok fb⟩] calls evaluations hits) :
    EndsSampled step a b fa fb [⟨a, .ok fa⟩, ⟨b, .ok fb⟩] calls := by
  refine ⟨rfl, ?_⟩
  obtain ⟨v, visits, rfl, hv, hsamples⟩ := List.map_eq_cons_iff.mp h.samples_eq.symm
  obtain ⟨w, rfl, hw⟩ := List.map_eq_singleton_iff.mp hsamples
  obtain rfl : v.argument = a := congrArg Call.argument hv
  obtain rfl : w.argument = b := congrArg Call.argument hw
  have hva : v.answer = .ok fa := congrArg Call.outcome hv
  have hwa : w.answer = .ok fb := congrArg Call.outcome hw
  -- nothing is known before the first sample, and only its value before the second one
  have hfirst : v.calls = [⟨MemoTable.representative step v.argument, .ok fa⟩] := by
    rcases (h.history.follows (i := 0) rfl).call_or_known with hcalls | ⟨-, bucket, value, -, hknown, -⟩
    · rwa [hva] at hcalls
    · exact absurd hknown List.not_mem_nil
  rw [h.calls_eq, List.flatMap_cons, List.flatMap_singleton, hfirst]
  rcases (h.history.follows (i := 1) rfl).call_or_known with hcalls | ⟨hnone, bucket, value, hb, hknown, hok⟩
  · rw [hcalls, hwa]
    exact .inl rfl
  · obtain ⟨e, he, hea, hev⟩ := Visit.mem_lessons.mp hknown
    obtain rfl : e = v := List.mem_singleton.mp he
    have hfa : fa = value := by
      rw [Visit.computed?, hfirst] at hev
      exact Option.some.inj hev
    have hfb : fb = value := Except.ok.inj (hwa.symm.trans hok)
    rw [hnone, MemoTable.representative_of_some hb, MemoTable.representative_of_some hea]
    exact .inr ⟨rfl, hfb.trans hfa.symm, rfl⟩

namespace Bisection

def Ending.failure? : Ending → Option DivisionByZero
  | failed e => some e
  | _ => none

def Course.failure? : Course → Option DivisionByZero
  | endFailed e => some e
  | narrow _ (.error e) => some e
  | halved _ d => d.ending.failure?
  | _ => none

theorem Halvings.endsWith {tol : Float} {budget iteration : Nat} {span : Span} {d : Descent}
    {calls : List Call} (h : Halvings tol budget iteration span d calls) :
    EndsWith calls d.ending.failure? := by
  induction h with
  | capReached => exact List.forall_mem_nil _
  | narrow => exact List.forall_mem_nil _
  | failed e => exact endsWith_failure _ e
  | smallValue fMid => exact List.forall_mem_singleton.mpr ⟨fMid, rfl⟩
  | halved fMid _ _ _ ih => exact ih.cons _ fMid

theorem Explores.endsWith {bracket : Bracket} {cfg : BisectionConfig} {course : Course}
    {samples : List Call} (h : Explores bracket cfg course samples) :
    EndsWith samples course.failure? := by
  have hnone : EndsWith [] none := List.forall_mem_nil _
  cases h with
  | leftFailed e => exact endsWith_failure _ e
  | rightFailed fa e => exact (endsWith_failure _ e).cons _ fa
  | leftSmall fa fb => exact (hnone.cons _ fb).cons _ fa
  | rightSmall fa fb => exact (hnone.cons _ fb).cons _ fa
  | noSignChange fa fb => exact (hnone.cons _ fb).cons _ fa
  | narrow fa fb outcome =>
    cases outcome with
    | ok v => exact ((hnone.cons _ v).cons _ fb).cons _ fa
    | error e => exact ((endsWith_failure _ e).cons _ fb).cons _ fa
  | halved fa fb d calls _ _ _ halvings => exact (halvings.endsWith.cons _ fb).cons _ fa

section
variable {bracket : Bracket} {evaluations hits : Nat}

/-- A course that ends with a failure is reported as that failure. -/
theorem Course.result_of_failure {course : Course} {e : DivisionByZero} (h : course.failure? = some e) :
    course.result bracket evaluations hits = .error (.arithmetic e) := by
  cases course with
  | endFailed e' =>
    cases h
    rfl
  | endpoint root value => cases h
  | noSignChange fa fb => cases h
  | narrow midpoint outcome =>
    cases outcome with
    | ok v => cases h
    | error e' =>
      cases h
      rfl
  | halved fa d =>
    rw [Course.failure?] at h
    rw [Course.result]
    cases hd : d.ending with
    | failed e' =>
      rw [hd] at h
      cases h
      rfl
    | _ =>
      rw [hd] at h
      cases h

/-- The errors that are reported on a course: its failure, or the missing change of sign. -/
theorem Course.error_cases {course : Course} {e : SolverError}
    (h : course.result bracket evaluations hits = .error e) :
    (∃ cause, course.failure? = some cause ∧ e = .arithmetic cause) ∨
      ∃ fa fb, course = .noSignChange fa fb ∧ e = .noSignChange bracket.left bracket.right fa fb := by
  cases course with
  | endFailed cause =>
    cases h
    exact .inl ⟨cause, rfl, rfl⟩
  | endpoint root value => cases h
  | noSignChange fa fb =>
    cases h
    exact .inr ⟨fa, fb, rfl, rfl⟩
  | narrow midpoint outcome =>
    cases outcome with
    | ok v => cases h
    | error cause =>
      cases h
      exact .inl ⟨cause, rfl, rfl⟩
  | halved fa d =>
    rw [Course.result] at h
    rw [Course.failure?]
    cases hd : d.ending with
    | failed cause =>
      rw [hd] at h
      cases h
      exact .inl ⟨cause, rfl, rfl⟩
    | _ =>
      rw [hd] at h
      cases h

end

variable {σ : Type} {f : Sampler σ} {bracket : Bracket} {cfg : BisectionConfig} {s : σ}

/-- The errors of a bisection: its arguments are refused before any call, a call fails, or the values at the
ends have no opposite signs. -/
theorem error_cases {e : SolverError} (h : (bisection f bracket cfg s).1.result = .error e) :
    calls f bracket cfg s = [] ∧ (e = .invalidBounds bracket.left bracket.right ∨
        ∃ step, e = .degenerateCacheStep cfg.tolerance.value step) ∨
      (∃ cause, e = .arithmetic cause) ∨
      ∃ fa fb, e = .noSignChange bracket.left bracket.right fa fb ∧
        EndsSampled (SampleCache.stepFor cfg.tolerance.value) bracket.left bracket.right fa fb
          (samples f bracket cfg s) (calls f bracket cfg s) := by
  by_cases hb : bracket.isProper = true
  · by_cases hs : isRoundingStep (SampleCache.stepFor cfg.tolerance.value) = true
    · obtain ⟨course, visits, evaluations, hits, hexplores, -, hresult, hledger⟩ :=
        explores_with_ledger f s hb hs
      rw [hresult] at h
      rcases course.error_cases h with ⟨cause, -, he⟩ | ⟨fa, fb, rfl, he⟩
      · exact .inr (.inl ⟨cause, he⟩)
      · generalize samples f bracket cfg s = samples at hexplores hledger
        cases hexplores
        exact .inr (.inr ⟨fa, fb, he, hledger.endsSampled⟩)
    · rw [bisection_of_no_step hb hs] at h
      cases h
      exact .inl ⟨calls_of_no_step hb hs, .inr ⟨_, rfl⟩⟩
  · rw [bisection_of_improper hb] at h
    cases h
    exact .inl ⟨calls_of_improper hb, .inl rfl⟩

theorem failsFast : FailsFast (calls f bracket cfg s) (bisection f bracket cfg s).1.result := by
  by_cases hb : bracket.isProper = true
  · by_cases hs : isRoundingStep (SampleCache.stepFor cfg.tolerance.value) = true
    · obtain ⟨course, visits, evaluations, hits, hexplores, -, hresult, hledger⟩ :=
        explores_with_ledger f s hb hs
      have hsamples := hexplores.endsWith
      rw [hledger.samples_eq] at hsamples
      rw [hresult, hledger.calls_eq]
      refine .of_endsWith (hledger.history.endsWith_calls hsamples) fun e => ⟨fun h => ?_, fun h => ?_⟩
      · rcases course.error_cases h with ⟨cause, hcause, he⟩ | ⟨fa, fb, -, he⟩
        · cases he
          exact hcause
        · cases he
      · exact Course.result_of_failure h
    · rw [calls_of_no_step hb hs, bisection_of_no_step hb hs]
      exact .of_no_call nofun
  · rw [calls_of_improper hb, bisection_of_improper hb]
    exact .of_no_call nofun

end Bisection

namespace FixedPoint

def Ending.failure? : Ending → Option DivisionByZero
  | failed e => some e
  | _ => none

theorem Steps.endsWith {tol : Float} {budget number : Nat} {current : Float} {c : Course}
    {calls : List Call} (h : Steps tol budget number current c calls) :
    EndsWith calls c.ending.failure? := by
  induction h with
  | limitReached => exact List.forall_mem_nil _
  | failed e => exact endsWith_failure _ e
  | shortStep next => exact List.forall_mem_singleton.mpr ⟨next, rfl⟩
  | longStep next _ _ ih => exact ih.cons _ next

/-- Steps are reported as an error if they end with a failure, which is the error. -/
theorem Course.result_eq_error_iff {c : Course} {x0 : Float} {evaluations hits : Nat} {e : SolverError} :
    c.result x0 evaluations hits = .error e ↔ ∃ cause, c.ending.failure? = some cause ∧ e = .arithmetic cause := by
  rw [Course.result]
  cases c.ending with
  | failed cause =>
    constructor
    · intro h
      cases h
      exact ⟨cause, rfl, rfl⟩
    · rintro ⟨_, hcause, rfl⟩
      cases hcause
      rfl
  | _ =>
    constructor
    · intro h
      cases h
    · rintro ⟨_, hcause, -⟩
      cases hcause

variable {σ : Type} {g : Sampler σ} {x0 : Float} {cfg : FixedPointConfig} {s : σ}

theorem failsFast : FailsFast (calls g x0 cfg s) (fixedPoint g x0 cfg s).1.result := by
  by_cases hs : isRoundingStep (SampleCache.stepFor cfg.tolerance.value) = true
  · obtain ⟨c, visits, evaluations, hits, hsteps, hresult, hledger⟩ :=
      steps_with_ledger g x0 s hs
    have hsamples := hsteps.endsWith
    rw [hledger.samples_eq] at hsamples
    rw [hresult, hledger.calls_eq]
    refine .of_endsWith (hledger.history.endsWith_calls hsamples) fun e => ?_
    rw [Course.result_eq_error_iff]
    simp only [SolverError.arithmetic.injEq, exists_eq_right']
  · rw [calls_of_no_step hs, fixedPoint_of_no_step hs]
    exact .of_no_call nofun

private theorem calls_of_degenerateCacheStep {tol step : Float}
    (h : (fixedPoint g x0 cfg s).1.result = .error (.degenerateCacheStep tol step)) :
    calls g x0 cfg s = [] := by
  by_cases hs : isRoundingStep (SampleCache.stepFor cfg.tolerance.value) = true
  · obtain ⟨c, -, evaluations, hits, -, hresult, -⟩ := steps_with_ledger g x0 s hs
    rw [hresult, Course.result_eq_error_iff] at h
    obtain ⟨cause, -, he⟩ := h
    cases he
  · exact calls_of_no_step hs

end FixedPoint

/-- A call that fails ends a solver, with its failure as the result, and every failure that a solver reports
is that of its last call. Refused arguments are followed by no call, and where the ends have no opposite
signs, their two values are all that was asked for. -/
theorem solvers_fail_fast {σ : Type} (f : Sampler σ) (s : σ) :
    (∀ bracket cfg, let result := (bisection f bracket cfg s).1.result
      let calls := Bisection.calls f bracket cfg s
      FailsFast calls result ∧
      (∀ a b, result = .error (.invalidBounds a b) → calls = []) ∧
      (∀ tol step, result = .error (.degenerateCacheStep tol step) → calls = []) ∧
      (∀ a b fa fb, result = .error (.noSignChange a b fa fb) → a = bracket.left ∧ b = bracket.right ∧
        EndsSampled (cfg.tolerance.value * 0.01) a b fa fb
          (Bisection.samples f bracket cfg s) calls)) ∧
    (∀ x0 cfg, let result := (fixedPoint f x0 cfg s).1.result
      let calls := FixedPoint.calls f x0 cfg s
      FailsFast calls result ∧ ∀ tol step, result = .error (.degenerateCacheStep tol step) → calls = []) := by
  constructor
  · intro bracket cfg result calls
    refine ⟨Bisection.failsFast, fun a b h => ?_, fun tol step h => ?_, fun a b fa fb h => ?_⟩
    · rcases Bisection.error_cases h with ⟨hcalls, -⟩ | ⟨cause, he⟩ | ⟨fa, fb, he, -⟩
      · exact hcalls
      · cases he
      · cases he
    · rcases Bisection.error_cases h with ⟨hcalls, -⟩ | ⟨cause, he⟩ | ⟨fa, fb, he, -⟩
      · exact hcalls
      · cases he
      · cases he
    · rcases Bisection.error_cases h with ⟨-, he | ⟨_, he⟩⟩ | ⟨cause, he⟩ | ⟨fa, fb, he, hends⟩
      · cases he
      · cases he
      · cases he
      · cases he
        exact ⟨rfl, rfl, hends⟩
  · intro x0 cfg result calls
    exact ⟨FixedPoint.failsFast, fun tol step h => FixedPoint.calls_of_degenerateCacheStep h⟩

/-- Doubling, with a function that fails when it is called for the third time. -/
theorem solvers_fail_fast_third_call :
    let f : Sampler Nat := fun x n => (if n = 2 then .error ⟨7.0⟩ else .ok (2.0 * x), n + 1)
    let cfg : BisectionConfig := ⟨⟨1.0, by decide +kernel⟩, 10⟩
    let steps : FixedPointConfig := ⟨⟨1.0, by decide +kernel⟩, 9, by decide⟩
    Bisection.calls f ⟨-1.0, 2.0⟩ cfg 0 =
      [⟨-1.0, .ok (-2.0)⟩, ⟨2.0, .ok 4.0⟩, ⟨0.5, .error ⟨7.0⟩⟩] ∧
    (bisection f ⟨-1.0, 2.0⟩ cfg 0).1.result = .error (.arithmetic ⟨7.0⟩) ∧
    FixedPoint.calls f 1.0 steps 0 = [⟨1.0, .ok 2.0⟩, ⟨2.0, .ok 4.0⟩, ⟨4.0, .error ⟨7.0⟩⟩] ∧
    (fixedPoint f 1.0 steps 0).1.result = .error (.arithmetic ⟨7.0⟩) := by
  intro f cfg steps
  have hbisection : Bisection.calls f ⟨-1.0, 2.0⟩ cfg 0 =
      [⟨-1.0, .ok (-2.0)⟩, ⟨2.0, .ok 4.0⟩, ⟨0.5, .error ⟨7.0⟩⟩] := by decide +kernel
  have hfixed : FixedPoint.calls f 1.0 steps 0 =
      [⟨1.0, .ok 2.0⟩, ⟨2.0, .ok 4.0⟩, ⟨4.0, .error ⟨7.0⟩⟩] := by decide +kernel
  obtain ⟨hbisect, hfix⟩ := solvers_fail_fast f 0
  refine ⟨hbisection, ?_, hfixed, ?_⟩
  · exact ((hbisect ⟨-1.0, 2.0⟩ cfg).1.last 2 0.5 ⟨7.0⟩ (congrArg (·[2]?) hbisection)).2
  · exact ((hfix 1.0 steps).1.last 2 4.0 ⟨7.0⟩ (congrArg (·[2]?) hfixed)).2

end FormulaRoots
