import FormulaRoots.Proofs.Memo.Ledger
import FormulaRoots.Proofs.Solver.Selection
import FormulaRoots.Proofs.Solver.Substitution

/-! The calls that a function receives from a solver. The solver sees samples; its ledger joins them with
the calls that were made for them and with the counters of the report. -/
namespace FormulaRoots
open Sampler

deriving instance DecidableEq for Sampler.Call

private theorem Sampler.Agree.recorded {σ τ : Type} {f : Sampler σ} {g : Sampler τ}
    {Related : σ → τ → Prop} {Good : τ → Prop} (h : Agree f g Related Good) :
    Agree (recorded f) (recorded g)
      (fun r r' => Related r.state r'.state ∧ r.calls = r'.calls) (fun r => Good r.state) where
  good_before x r hr := h.good_before x r.state hr
  answer x r r' hr hr' := h.answer x r.state r'.state hr.1 hr'
  related x r r' hr hr' := by
    have hanswer := h.answer x r.state r'.state hr.1 hr'
    refine ⟨h.related x r.state r'.state hr.1 hr', ?_⟩
    simp only [Sampler.recorded, hanswer, hr.2]

section
variable {α σ : Type} (f : Sampler σ) (q : Inquiry α) (tolerance : Tolerance)
  (hs : isRoundingStep (SampleCache.stepFor tolerance.value) = true) (s : σ)

def SampleCache.observed : α × Recorded (SampleCache (Recorded σ)) :=
  q.run (recorded (sample (recorded f))) (.start (fresh tolerance hs (.start s)))

private theorem SampleCache.run_eq_observed :
    q.run (sample (recorded f)) (fresh tolerance hs (.start s)) =
      ((observed f q tolerance hs s).1, (observed f q tolerance hs s).2.state) := by
  obtain ⟨hresult, hstate⟩ := (agree_recorded (sample (recorded f))).run q
    (fresh tolerance hs (.start s)) (.start (fresh tolerance hs (.start s))) rfl trivial
  exact Prod.ext hresult hstate.symm

/-- A record of the calls changes no sample. -/
theorem SampleCache.samples_eq_observed :
    (q.run (recorded (sample f)) (.start (fresh tolerance hs s))).2.calls =
      (observed f q tolerance hs s).2.calls := by
  have hrun := (agree_recorded f).sample.recorded.run q (.start (fresh tolerance hs s))
    (.start (fresh tolerance hs (.start s))) ⟨⟨rfl, rfl, rfl⟩, rfl⟩ trivial
  exact hrun.2.2

end

namespace Bisection
variable {σ : Type} {f : Sampler σ} {bracket : Bracket} {cfg : BisectionConfig} {s : σ}

def calls (f : Sampler σ) (bracket : Bracket) (cfg : BisectionConfig) (s : σ) : List Call :=
  (bisection (recorded f) bracket cfg (.start s)).2.calls.reverse

/-- A record of the calls does not change the outcome. -/
theorem bisection_recorded : (bisection f bracket cfg s).1 =
    (bisection (recorded f) bracket cfg (.start s)).1 :=
  (agree_recorded f).bisection bracket cfg rfl trivial

theorem calls_of_improper (hb : ¬ bracket.isProper = true) : calls f bracket cfg s = [] := by
  rw [calls, bisection_of_improper hb]
  rfl

theorem calls_of_no_step (hb : bracket.isProper = true)
    (hs : ¬ isRoundingStep (SampleCache.stepFor cfg.tolerance.value) = true) :
    calls f bracket cfg s = [] := by
  rw [calls, bisection_of_no_step hb hs]
  rfl

def Course.IsSelected (course : Course) (bracket : Bracket) (cfg : BisectionConfig) (samples : List Call) :
    Prop :=
  (∃ e, course = .endFailed e) ∨ ∃ fa fb later, Selects bracket cfg fa fb course later ∧
    samples = ⟨bracket.left, .ok fa⟩ :: ⟨bracket.right, .ok fb⟩ :: later

/-- A bisection whose arguments are accepted takes a course, and a ledger tells its samples, its calls and
the counters with which the course is reported. -/
theorem explores_with_ledger (f : Sampler σ) (s : σ) (hb : bracket.isProper = true)
    (hs : isRoundingStep (SampleCache.stepFor cfg.tolerance.value) = true) :
    ∃ course visits evaluations hits, Explores bracket cfg course (samples f bracket cfg s) ∧
      course.IsSelected bracket cfg (samples f bracket cfg s) ∧
      (bisection f bracket cfg s).1.result = course.result bracket evaluations hits ∧
      Ledger (SampleCache.stepFor cfg.tolerance.value) visits (samples f bracket cfg s)
        (calls f bracket cfg s) evaluations hits := by
  let r := SampleCache.observed f (exploration bracket cfg) cfg.tolerance hs s
  have hrun := SampleCache.run_eq_observed f (exploration bracket cfg) cfg.tolerance hs s
  have hsamples : samples f bracket cfg s = r.2.calls.reverse := by
    have h := SampleCache.samples_eq_observed f (exploration bracket cfg) cfg.tolerance hs s
    rw [← explore_eq_run] at h
    rw [← h]
    simp only [samples, hb, SampleCache.ofTolerance_of_step hs]
    rfl
  have hexplores := explores_explore (SampleCache.sample (recorded f)) cfg
    (Bracket.isFinite_of_isProper hb) (.fresh cfg.tolerance hs (.start s))
  have hselects := selects_explore (SampleCache.sample (recorded f)) bracket cfg
    (.fresh cfg.tolerance hs (.start s))
  rw [explore_eq_run] at hexplores hselects
  obtain ⟨visits, hledger⟩ :=
    SampleCache.exists_ledger f (exploration bracket cfg) cfg.tolerance hs s
  rw [bisection_recorded, calls, bisection_of_step hb hs, hrun, hsamples]
  exact ⟨r.1, visits, _, _, hexplores, hselects, rfl, hledger⟩

private theorem accepted_of_samples_ne_nil (h : samples f bracket cfg s ≠ []) :
    bracket.isProper = true ∧ isRoundingStep (SampleCache.stepFor cfg.tolerance.value) = true := by
  by_cases hb : bracket.isProper = true
  · by_cases hs : isRoundingStep (SampleCache.stepFor cfg.tolerance.value) = true
    · exact ⟨hb, hs⟩
    · simp [samples, hb, SampleCache.ofTolerance_of_no_step hs] at h
  · simp [samples, hb] at h

/-- The values of the ends, once they are sampled, select the course that is reported. -/
theorem selects_of_samples {fa fb : Float} {later : List Call}
    (h : samples f bracket cfg s = ⟨bracket.left, .ok fa⟩ :: ⟨bracket.right, .ok fb⟩ :: later) :
    ∃ course evaluations hits, Selects bracket cfg fa fb course later ∧
      (bisection f bracket cfg s).1.result = course.result bracket evaluations hits := by
  obtain ⟨hb, hs⟩ := accepted_of_samples_ne_nil (h ▸ List.cons_ne_nil _ _)
  obtain ⟨course, -, evaluations, hits, hexplores, hselected, hresult, -⟩ :=
    explores_with_ledger f s hb hs
  rw [h] at hexplores hselected
  obtain ⟨e, rfl⟩ | ⟨fa', fb', later', hselects, hsamples⟩ := hselected
  · cases hexplores
  · cases hsamples
    exact ⟨course, evaluations, hits, hselects, hresult⟩

end Bisection

namespace FixedPoint
variable {σ : Type} {g : Sampler σ} {x0 : Float} {cfg : FixedPointConfig} {s : σ}

def calls (g : Sampler σ) (x0 : Float) (cfg : FixedPointConfig) (s : σ) : List Call :=
  (fixedPoint (recorded g) x0 cfg (.start s)).2.calls.reverse

private theorem fixedPoint_recorded : (fixedPoint g x0 cfg s).1 =
    (fixedPoint (recorded g) x0 cfg (.start s)).1 :=
  (agree_recorded g).fixedPoint x0 cfg rfl trivial

theorem calls_of_no_step
    (hs : ¬ isRoundingStep (SampleCache.stepFor cfg.tolerance.value) = true) :
    calls g x0 cfg s = [] := by
  rw [calls, fixedPoint_of_no_step hs]
  rfl

/-- A fixed-point iteration whose tolerance is accepted makes steps, and a ledger tells its samples, its
calls and the counters with which the steps are reported. -/
theorem steps_with_ledger (g : Sampler σ) (x0 : Float) (s : σ)
    (hs : isRoundingStep (SampleCache.stepFor cfg.tolerance.value) = true) :
    ∃ c visits evaluations hits,
      Steps cfg.tolerance.value cfg.maxIter 1 x0 c (samples g x0 cfg s) ∧
      (fixedPoint g x0 cfg s).1.result = c.result x0 evaluations hits ∧
      Ledger (SampleCache.stepFor cfg.tolerance.value) visits (samples g x0 cfg s)
        (calls g x0 cfg s) evaluations hits := by
  let q := iteration cfg.tolerance.value cfg.maxIter 1 x0
  let r := SampleCache.observed g q cfg.tolerance hs s
  have hrun := SampleCache.run_eq_observed g q cfg.tolerance hs s
  have hsamples : samples g x0 cfg s = r.2.calls.reverse := by
    have h := SampleCache.samples_eq_observed g q cfg.tolerance hs s
    rw [← iterate_eq_run] at h
    rw [(result_and_samples g x0 cfg s hs).2, h]
  have hsteps := steps_of_start (SampleCache.sample (recorded g)) cfg.tolerance.value cfg.maxIter 1 x0
    (.fresh cfg.tolerance hs (.start s))
  rw [iterate_eq_run] at hsteps
  obtain ⟨visits, hledger⟩ := SampleCache.exists_ledger g q cfg.tolerance hs s
  rw [fixedPoint_recorded, FixedPoint.calls, fixedPoint_of_step hs, hrun, hsamples]
  exact ⟨r.1, visits, _, _, hsteps, rfl, hledger⟩

end FixedPoint
end FormulaRoots
