import FormulaRoots.Proofs.Memo.Calls
import FormulaRoots.Proofs.Solver.Inquiries

/-! Functions that agree are told apart by no cache and by no solver, also not by the counts in a
report. -/
namespace FormulaRoots
open Sampler
variable {σ τ : Type} {f : Sampler σ} {g : Sampler τ} {Related : σ → τ → Prop} {Good : τ → Prop}

/-- One call through equal tables: functions that agree give the same answer and leave equal tables. -/
theorem Sampler.Agree.getOrCompute (h : Agree f g Related Good) (table : MemoTable) (x : Float)
    (s : σ) (t : τ) (hr : Related s t) (ht : Good (table.getOrCompute g x t).2.2) :
    (table.getOrCompute f x s).1 = (table.getOrCompute g x t).1 ∧
    (table.getOrCompute f x s).2.1 = (table.getOrCompute g x t).2.1 ∧
    Related (table.getOrCompute f x s).2.2 (table.getOrCompute g x t).2.2 := by
  cases hb : table.bucket? x with
  | none =>
    rw [MemoTable.getOrCompute_of_no_bucket hb] at ht
    rw [MemoTable.getOrCompute_of_no_bucket hb, MemoTable.getOrCompute_of_no_bucket hb]
    exact ⟨h.answer x s t hr ht, rfl, h.related x s t hr ht⟩
  | some bucket =>
    cases hv : table.find? bucket with
    | some value =>
      rw [MemoTable.getOrCompute_of_found hb hv, MemoTable.getOrCompute_of_found hb hv]
      exact ⟨rfl, rfl, hr⟩
    | none =>
      rw [MemoTable.getOrCompute_of_absent hb hv] at ht
      rw [MemoTable.getOrCompute_of_absent hb hv, MemoTable.getOrCompute_of_absent hb hv]
      have hanswer := h.answer bucket s t hr ht
      exact ⟨hanswer, by rw [hanswer], h.related bucket s t hr ht⟩

/-- Functions that agree still do so behind caches that hold the same. -/
theorem Sampler.Agree.sample (h : Agree f g Related Good) :
    Agree (SampleCache.sample f) (SampleCache.sample g)
      (fun c d => c.tolerance = d.tolerance ∧ c.table = d.table ∧ Related c.source d.source)
      (fun d => Good d.source) where
  good_before x d hd := by
    rcases d.table.source_getOrCompute g x d.source with hs | ⟨y, hs⟩
    · exact hs ▸ hd
    · exact h.good_before y d.source (hs ▸ hd)
  answer x c d hr hd := by
    obtain ⟨-, htable, hr⟩ := hr
    have hc := h.getOrCompute d.table x c.source d.source hr hd
    unfold SampleCache.sample
    rw [htable]
    exact hc.1
  related x c d hr hd := by
    obtain ⟨htol, htable, hr⟩ := hr
    have hc := h.getOrCompute d.table x c.source d.source hr hd
    unfold SampleCache.sample
    rw [htable]
    exact ⟨htol, hc.2⟩

/-- Bisection has the same outcome for functions that agree. -/
theorem Sampler.Agree.bisection (h : Agree f g Related Good) (bracket : Bracket)
    (cfg : BisectionConfig) {s : σ} {t : τ} (hr : Related s t)
    (ht : Good (bisection g bracket cfg t).2) :
    (bisection f bracket cfg s).1 = (bisection g bracket cfg t).1 := by
  by_cases hb : bracket.isProper = true
  · by_cases hs : isRoundingStep (SampleCache.stepFor cfg.tolerance.value) = true
    · rw [Bisection.bisection_of_step hb hs] at ht
      obtain ⟨hcourse, -, htable, -⟩ := h.sample.run (Bisection.exploration bracket cfg)
        (.fresh cfg.tolerance hs s) (.fresh cfg.tolerance hs t) ⟨rfl, rfl, hr⟩ ht
      rw [Bisection.bisection_of_step hb hs, Bisection.bisection_of_step hb hs]
      simp only [SampleCache.evaluations, SampleCache.hits, hcourse, htable]
    · rw [Bisection.bisection_of_no_step hb hs, Bisection.bisection_of_no_step hb hs]
  · rw [Bisection.bisection_of_improper hb, Bisection.bisection_of_improper hb]

/-- Fixed-point iteration has the same outcome for functions that agree. -/
theorem Sampler.Agree.fixedPoint (h : Agree f g Related Good) (x0 : Float) (cfg : FixedPointConfig)
    {s : σ} {t : τ} (hr : Related s t) (ht : Good (fixedPoint g x0 cfg t).2) :
    (fixedPoint f x0 cfg s).1 = (fixedPoint g x0 cfg t).1 := by
  by_cases hs : isRoundingStep (SampleCache.stepFor cfg.tolerance.value) = true
  · rw [FixedPoint.fixedPoint_of_step hs] at ht
    obtain ⟨hcourse, -, htable, -⟩ := h.sample.run
      (FixedPoint.iteration cfg.tolerance.value cfg.maxIter 1 x0)
      (.fresh cfg.tolerance hs s) (.fresh cfg.tolerance hs t) ⟨rfl, rfl, hr⟩ ht
    rw [FixedPoint.fixedPoint_of_step hs, FixedPoint.fixedPoint_of_step hs]
    simp only [SampleCache.evaluations, SampleCache.hits, hcourse, htable]
  · rw [FixedPoint.fixedPoint_of_no_step hs, FixedPoint.fixedPoint_of_no_step hs]

/-- A record of the calls changes no answer. -/
theorem Sampler.agree_recorded (f : Sampler σ) :
    Agree f (recorded f) (fun s r => r.state = s) (fun _ => True) where
  good_before _ _ h := h
  answer x s r h _ := by
    subst h
    rfl
  related x s r h _ := by
    subst h
    rfl

end FormulaRoots
