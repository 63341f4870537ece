import FormulaRoots.Proofs.Sampling.Inquiry
import FormulaRoots.Solver.Bisection
import FormulaRoots.Solver.FixedPoint

/-! The solvers as inquiries: what they ask depends on the outcomes of samples and on nothing else. A
solver puts its inquiry to a new cache, unless its arguments are refused. -/
namespace FormulaRoots

def SampleCache.fresh {σ : Type} (tolerance : Tolerance)
    (h : isRoundingStep (stepFor tolerance.value) = true) (s : σ) : SampleCache σ :=
  ⟨tolerance, .ofStep (stepFor tolerance.value) h, s⟩

namespace SampleCache
variable {σ : Type} {tolerance : Tolerance} {s : σ}

theorem ofTolerance_of_step (hs : isRoundingStep (stepFor tolerance.value) = true) (s : σ) :
    ofTolerance tolerance s = .ok (fresh tolerance hs s) := by
  simp only [ofTolerance, MemoTable.ofStep?, dif_pos hs]
  rfl

theorem ofTolerance_of_no_step (hs : ¬ isRoundingStep (stepFor tolerance.value) = true) (s : σ) :
    ofTolerance tolerance s = .error (.degenerateCacheStep tolerance.value (stepFor tolerance.value)) := by
  simp only [ofTolerance, MemoTable.ofStep?, dif_neg hs]

/-- A cache that could be made for a tolerance is fresh. -/
theorem fresh_of_ofTolerance {cache : SampleCache σ} (h : ofTolerance tolerance s = .ok cache) :
    ∃ hs, cache = fresh tolerance hs s := by
  by_cases hs : isRoundingStep (stepFor tolerance.value) = true
  · rw [ofTolerance_of_step hs] at h
    cases h
    exact ⟨hs, rfl⟩
  · rw [ofTolerance_of_no_step hs] at h
    cases h

end SampleCache

/-- A result that is a report is told by the report. -/
theorem ok_of_toOption {ε α : Type} {result : Except ε α} {a : α} (h : result.toOption = some a) :
    result = .ok a := by
  cases result with
  | error e => cases h
  | ok b =>
    cases h
    rfl

theorem isSome_toOption_iff {ε α : Type} {result : Except ε α} :
    result.toOption.isSome = true ↔ ∃ a, result = .ok a := by
  rw [Option.isSome_iff_exists]
  constructor
  · rintro ⟨a, ha⟩
    exact ⟨a, ok_of_toOption ha⟩
  · rintro ⟨a, rfl⟩
    exact ⟨a, rfl⟩

namespace Bisection

def descent (tol : Float) (budget iteration : Nat) (bracket : Bracket) (fLeft : Float) :
    Inquiry Descent :=
  match budget with
  | 0 => .done (.stop tol bracket)
  | budget + 1 =>
    if tol < bracket.width then
      .ask bracket.midpoint fun
        | .error e => .done ⟨[], bracket, .failed e⟩
        | .ok fMid =>
          if fMid.abs < tol then
            .done ⟨[.ofBracket iteration bracket fMid], bracket, .smallValue⟩
          else
            (descent tol budget (iteration + 1) (bracket.half fLeft fMid)
              (if changesSign fLeft fMid then fLeft else fMid)).map
                (.cons (.ofBracket iteration bracket fMid))
    else .done (.stop tol bracket)

theorem descend_eq_run {σ : Type} (sample : Sampler σ) (tol : Float) (budget iteration : Nat)
    (bracket : Bracket) (fLeft : Float) (s : σ) :
    descend sample tol budget iteration bracket fLeft s =
      (descent tol budget iteration bracket fLeft).run sample s := by
  induction budget generalizing iteration bracket fLeft s with
  | zero => rfl
  | succ budget ih =>
    unfold descend descent
    by_cases hw : tol < bracket.width
    · rw [if_pos hw, if_pos hw]
      simp only [Inquiry.run]
      rcases sample bracket.midpoint s with ⟨e | fMid, s'⟩
      · rfl
      · simp only [ih, Inquiry.run_ite, Inquiry.run_map, Inquiry.run]
    · rw [if_neg hw, if_neg hw]
      rfl

def exploration (bracket : Bracket) (cfg : BisectionConfig) : Inquiry Course :=
  let tol := cfg.tolerance.value
  .ask bracket.left fun
    | .error e => .done (.endFailed e)
    | .ok fa =>
      .ask bracket.right fun
        | .error e => .done (.endFailed e)
        | .ok fb =>
          if fa.abs < tol then .done (.endpoint bracket.left fa)
          else if fb.abs < tol then .done (.endpoint bracket.right fb)
          else if !changesSign fa fb then .done (.noSignChange fa fb)
          else if bracket.width ≤ tol then
            .ask bracket.midpoint fun outcome => .done (.narrow bracket.midpoint outcome)
          else (descent tol (cap bracket cfg).toNat 1 bracket fa).map (.halved fa)

theorem explore_eq_run {σ : Type} (sample : Sampler σ) (bracket : Bracket) (cfg : BisectionConfig)
    (s : σ) : explore sample bracket cfg s = (exploration bracket cfg).run sample s := by
  unfold explore exploration
  simp only [Inquiry.run]
  rcases sample bracket.left s with ⟨e | fa, s₁⟩
  · rfl
  · simp only [Inquiry.run]
    rcases sample bracket.right s₁ with ⟨e | fb, s₂⟩
    · rfl
    · simp only [descend_eq_run, Inquiry.run_ite, Inquiry.run_map, Inquiry.run]

variable {σ : Type} {bracket : Bracket} {cfg : BisectionConfig}

theorem bisection_of_improper (hb : ¬ bracket.isProper = true) (f : Sampler σ) (s : σ) :
    bisection f bracket cfg s = (⟨.error (.invalidBounds bracket.left bracket.right), []⟩, s) := by
  unfold bisection
  rw [Bool.eq_false_iff.mpr hb]
  rfl

theorem bisection_of_no_step (hb : bracket.isProper = true)
    (hs : ¬ isRoundingStep (SampleCache.stepFor cfg.tolerance.value) = true) (f : Sampler σ) (s : σ) :
    bisection f bracket cfg s =
      (⟨.error (.degenerateCacheStep cfg.tolerance.value (SampleCache.stepFor cfg.tolerance.value)),
        caution bracket cfg⟩, s) := by
  simp only [bisection, hb, SampleCache.ofTolerance_of_no_step hs]
  rfl

theorem bisection_of_step (hb : bracket.isProper = true)
    (hs : isRoundingStep (SampleCache.stepFor cfg.tolerance.value) = true) (f : Sampler σ) (s : σ) :
    bisection f bracket cfg s =
      let r := (exploration bracket cfg).run (SampleCache.sample f) (.fresh cfg.tolerance hs s)
      (⟨r.1.result bracket r.2.evaluations r.2.hits,
        caution bracket cfg ++ r.1.log bracket cfg⟩, r.2.source) := by
  simp only [bisection, hb, SampleCache.ofTolerance_of_step hs, explore_eq_run]
  rfl

/-- Only accepted arguments lead to a report. -/
theorem accepted_of_ok {f : Sampler σ} {s : σ} {report : Report BisectionRecord}
    (h : (bisection f bracket cfg s).1.result = .ok report) :
    bracket.isProper = true ∧ isRoundingStep (SampleCache.stepFor cfg.tolerance.value) = true := by
  by_cases hb : bracket.isProper = true
  · by_cases hs : isRoundingStep (SampleCache.stepFor cfg.tolerance.value) = true
    · exact ⟨hb, hs⟩
    · rw [bisection_of_no_step hb hs] at h
      cases h
  · rw [bisection_of_improper hb] at h
    cases h

end Bisection

namespace FixedPoint

def iteration (tol : Float) (budget number : Nat) (current : Float) : Inquiry Course :=
  match budget with
  | 0 => .done ⟨[], .limitReached⟩
  | budget + 1 =>
    .ask current fun
      | .error e => .done ⟨[], .failed e⟩
      | .ok next =>
        if (FixedPointRecord.ofStep number current next).error < tol then
          .done ⟨[.ofStep number current next], .shortStep⟩
        else (iteration tol budget (number + 1) next).map (.cons (.ofStep number current next))

theorem iterate_eq_run {σ : Type} (sample : Sampler σ) (tol : Float) (budget number : Nat)
    (current : Float) (s : σ) :
    iterate sample tol budget number current s =
      (iteration tol budget number current).run sample s := by
  induction budget generalizing number current s with
  | zero => rfl
  | succ budget ih =>
    unfold iterate iteration
    simp only [Inquiry.run]
    rcases sample current s with ⟨e | next, s'⟩
    · rfl
    · simp only [ih, Inquiry.run_ite, Inquiry.run_map, Inquiry.run]

variable {σ : Type} {cfg : FixedPointConfig}

theorem fixedPoint_of_no_step (hs : ¬ isRoundingStep (SampleCache.stepFor cfg.tolerance.value) = true)
    (g : Sampler σ) (x0 : Float) (s : σ) :
    fixedPoint g x0 cfg s =
      (⟨.error (.degenerateCacheStep cfg.tolerance.value (SampleCache.stepFor cfg.tolerance.value)),
        []⟩, s) := by
  simp only [fixedPoint, SampleCache.ofTolerance_of_no_step hs]

theorem fixedPoint_of_step (hs : isRoundingStep (SampleCache.stepFor cfg.tolerance.value) = true)
    (g : Sampler σ) (x0 : Float) (s : σ) :
    fixedPoint g x0 cfg s =
      let r := (iteration cfg.tolerance.value cfg.maxIter 1 x0).run (SampleCache.sample g)
        (.fresh cfg.tolerance hs s)
      (⟨r.1.result x0 r.2.evaluations r.2.hits, r.1.log x0 cfg⟩, r.2.source) := by
  simp only [fixedPoint, SampleCache.ofTolerance_of_step hs, iterate_eq_run]

/-- Only an accepted tolerance leads to a report. -/
theorem accepted_of_ok {g : Sampler σ} {x0 : Float} {s : σ} {report : Report FixedPointRecord}
    (h : (fixedPoint g x0 cfg s).1.result = .ok report) :
    isRoundingStep (SampleCache.stepFor cfg.tolerance.value) = true := by
  by_cases hs : isRoundingStep (SampleCache.stepFor cfg.tolerance.value) = true
  · exact hs
  · rw [fixedPoint_of_no_step hs] at h
    cases h

end FixedPoint
end FormulaRoots
