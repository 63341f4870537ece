import FormulaRoots.Proofs.Solver.Course

/-! The course that the values at the ends of an interval select. The values are tested before the width, and
the left end before the right one. -/
namespace FormulaRoots
open Sampler

namespace Bisection

/-- The course for the values `fa` and `fb` at the ends, and what is sampled after the ends. -/
inductive Selects (bracket : Bracket) (cfg : BisectionConfig) (fa fb : Float) :
    Course → List Call → Prop
  | left (small : fa.abs < cfg.tolerance.value) :
      Selects bracket cfg fa fb (.endpoint bracket.left fa) []
  | right (left : ¬ fa.abs < cfg.tolerance.value) (small : fb.abs < cfg.tolerance.value) :
      Selects bracket cfg fa fb (.endpoint bracket.right fb) []
  | noSignChange (left : ¬ fa.abs < cfg.tolerance.value) (right : ¬ fb.abs < cfg.tolerance.value)
      (same : ¬ OppositeSigns fa fb) : Selects bracket cfg fa fb (.noSignChange fa fb) []
  | narrow (left : ¬ fa.abs < cfg.tolerance.value) (right : ¬ fb.abs < cfg.tolerance.value)
      (opposite : OppositeSigns fa fb) (narrow : bracket.width ≤ cfg.tolerance.value)
      (outcome : Except DivisionByZero Float) :
      Selects bracket cfg fa fb (.narrow bracket.midpoint outcome) [⟨bracket.midpoint, outcome⟩]
  | halved (left : ¬ fa.abs < cfg.tolerance.value) (right : ¬ fb.abs < cfg.tolerance.value)
      (opposite : OppositeSigns fa fb) (wide : ¬ bracket.width ≤ cfg.tolerance.value) (d : Descent)
      (later : List Call) : Selects bracket cfg fa fb (.halved fa d) later

/-- Unless an end fails, the values there select the course. -/
theorem selects_explore {σ : Type} (sample : Sampler σ) (bracket : Bracket) (cfg : BisectionConfig)
    (s : σ) : let r := explore (recorded sample) bracket cfg (.start s)
    (∃ e, r.1 = .endFailed e) ∨ ∃ fa fb later, Selects bracket cfg fa fb r.1 later ∧
      r.2.calls.reverse = ⟨bracket.left, .ok fa⟩ :: ⟨bracket.right, .ok fb⟩ :: later := by
  unfold explore
  simp only [recorded, Recorded.start]
  rcases sample bracket.left s with ⟨e | fa, s₁⟩
  · exact .inl ⟨e, rfl⟩
  · simp only
    rcases sample bracket.right s₁ with ⟨e | fb, s₂⟩
    · exact .inl ⟨e, rfl⟩
    · refine .inr ⟨fa, fb, ?_⟩
      by_cases hleft : fa.abs < cfg.tolerance.value
      · simp only [if_pos hleft]
        exact ⟨[], .left hleft, rfl⟩
      · by_cases hright : fb.abs < cfg.tolerance.value
        · simp only [if_neg hleft, if_pos hright]
          exact ⟨[], .right hleft hright, rfl⟩
        · simp only [if_neg hleft, if_neg hright]
          by_cases hsign : changesSign fa fb = true
          · have hopposite := (changesSign_iff fa fb).mp hsign
            by_cases hnarrow : bracket.width ≤ cfg.tolerance.value
            · simp only [hsign, Bool.not_true, Bool.false_eq_true, if_false, if_pos hnarrow]
              exact ⟨_, .narrow hleft hright hopposite hnarrow _, rfl⟩
            · simp only [hsign, Bool.not_true, Bool.false_eq_true, if_false, if_neg hnarrow]
              obtain ⟨later, hlater⟩ := (descent cfg.tolerance.value (cap bracket cfg).toNat 1 bracket
                fa).calls_run sample ⟨s₂, [⟨bracket.right, .ok fb⟩, ⟨bracket.left, .ok fa⟩]⟩
              rw [← descend_eq_run] at hlater
              refine ⟨later.reverse, .halved hleft hright hopposite hnarrow _ _, ?_⟩
              exact (congrArg List.reverse hlater.symm).trans List.reverse_append
          · have hsame := mt (changesSign_iff fa fb).mpr hsign
            rw [Bool.not_eq_true] at hsign
            simp only [hsign, Bool.not_false, if_true]
            exact ⟨[], .noSignChange hleft hright hsame, rfl⟩

end Bisection
end FormulaRoots
