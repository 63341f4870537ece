import FormulaRoots.Proofs.Binary64.Order
import FormulaRoots.Solver.Bracket

/-! Halving intervals. The midpoint of an interval of finite width lies between the ends, so both halves
have finite widths again, and each of them can be compared with a tolerance. -/
namespace FormulaRoots
open Binary64

namespace Bracket

structure IsFinite (b : Bracket) : Prop where
  left : b.left.isFinite = true
  right : b.right.isFinite = true
  width : b.width.isFinite = true

variable {b : Bracket}

theorem isFinite_of_isProper (h : b.isProper = true) : b.IsFinite := by
  simp only [isProper, Bool.and_eq_true] at h
  exact ⟨h.1.1.1, h.1.1.2, h.2⟩

namespace IsFinite

theorem steps_width (h : b.IsFinite) : steps b.width = rounded (steps b.right - steps b.left) 1 :=
  (isResult_sub h.right h.left).steps_eq h.width

/-- A width is compared with a tolerance, one way or the other. -/
theorem lt_width_of_not_le (h : b.IsFinite) {tol : Float} (htol : tol.isNaN = false)
    (hwide : ¬ b.width ≤ tol) : tol < b.width := by
  have hnumber := isNaN_of_isFinite h.width
  rw [le_iff_steps hnumber htol] at hwide
  rw [lt_iff_steps htol hnumber]
  omega

private theorem of_steps_le (h : b.IsFinite) {c : Bracket} (hl : c.left.isFinite = true)
    (hr : c.right.isFinite = true) (hleft : steps b.left ≤ steps c.left)
    (hmid : steps c.left ≤ steps c.right) (hright : steps c.right ≤ steps b.right) : c.IsFinite := by
  refine ⟨hl, hr, ?_⟩
  have hwidth := (isFinite_iff_steps (isNaN_of_isFinite h.width)).mp h.width
  have hle : rounded (steps c.right - steps c.left) 1 ≤ rounded (steps b.right - steps b.left) 1 :=
    rounded_mono (by omega) Nat.one_pos
  have hzero : rounded 0 1 ≤ rounded (steps c.right - steps c.left) 1 :=
    rounded_mono (by omega) Nat.one_pos
  rw [rounded_of_isShort (isShort_of_lt (by decide))] at hzero
  rw [h.steps_width] at hwidth
  refine (isResult_sub hr hl).isFinite_iff.mpr ?_
  omega

/-- The midpoint is finite and lies between the ends. -/
theorem midpoint_between (h : b.IsFinite) (hpos : 0.0 < b.width) :
    b.midpoint.isFinite = true ∧ steps b.left ≤ steps b.midpoint ∧
      steps b.midpoint ≤ steps b.right := by
  have hnumber := isNaN_of_isFinite h.width
  have hlimit := (isFinite_iff_steps hnumber).mp h.width
  rw [zero_lt_iff hnumber] at hpos
  have hwidth := h.steps_width
  -- the distance of the ends is positive, as its rounded value is
  have hdistance : 0 < steps b.right - steps b.left := by
    refine Int.lt_of_not_ge fun hle => ?_
    have := rounded_mono hle Nat.one_pos
    rw [rounded_of_isShort (x := 0) (isShort_of_lt (by decide))] at this
    omega
  have hhalf := isResult_half h.width
  have hrounded : rounded (steps b.width) 2 = roundQuotient (steps b.width).natAbs 2 :=
    rounded_of_nonneg (by omega) 2
  have hle : roundQuotient (steps b.width).natAbs 2 ≤ (steps b.right - steps b.left).natAbs := by
    rw [hwidth, natAbs_rounded]
    exact roundQuotient_half_le (by omega)
  have hhalfFinite : (b.width / 2.0).isFinite = true := by
    refine hhalf.isFinite_iff.mpr (Nat.lt_of_le_of_lt ?_ hlimit)
    rw [natAbs_rounded]
    calc roundQuotient (steps b.width).natAbs 2
        ≤ roundQuotient ((steps b.width).natAbs * 1) 1 :=
          roundQuotient_mono (by decide) (by decide) (by omega)
      _ = (steps b.width).natAbs := roundQuotient_of_isShort Nat.one_pos (isShort_steps h.width)
  have hhalfSteps := hhalf.steps_eq hhalfFinite
  have hsum := isResult_add h.left hhalfFinite
  have hlow : steps b.left ≤ rounded (steps b.left + steps (b.width / 2.0)) 1 := by
    have := rounded_mono (x := steps b.left) (y := steps b.left + steps (b.width / 2.0)) (by omega)
      Nat.one_pos
    rwa [rounded_of_isShort (isShort_steps h.left)] at this
  have hhigh : rounded (steps b.left + steps (b.width / 2.0)) 1 ≤ steps b.right := by
    have := rounded_mono (x := steps b.left + steps (b.width / 2.0)) (y := steps b.right) (by omega)
      Nat.one_pos
    rwa [rounded_of_isShort (isShort_steps h.right)] at this
  have hleft := (isFinite_iff_steps (isNaN_of_isFinite h.left)).mp h.left
  have hright := (isFinite_iff_steps (isNaN_of_isFinite h.right)).mp h.right
  have hfinite : b.midpoint.isFinite = true := hsum.isFinite_iff.mpr (by omega)
  have hmid : steps b.midpoint = rounded (steps b.left + steps (b.width / 2.0)) 1 :=
    hsum.steps_eq hfinite
  exact ⟨hfinite, by omega, by omega⟩

/-- A half of an interval of finite width has a finite width. -/
theorem half (h : b.IsFinite) (hpos : 0.0 < b.width) (u v : Float) : (b.half u v).IsFinite := by
  obtain ⟨hfinite, hleft, hright⟩ := h.midpoint_between hpos
  unfold Bracket.half
  split
  · exact h.of_steps_le h.left hfinite (Int.le_refl _) hleft hright
  · exact h.of_steps_le hfinite h.right hleft hright (Int.le_refl _)

end IsFinite
end Bracket
end FormulaRoots
