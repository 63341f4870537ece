import FormulaRoots.Proofs.Solver.Failures

/-! The advice that goes with a missing change of sign. The change is looked for by sign bits and the advice
is given by comparisons with zero; the two agree on values that are not small, since zero is small. -/
namespace FormulaRoots
open Binary64 Sampler

namespace SolverError

/-- Advice that tells the signs of the values `fa` and `fb` at the ends. -/
structure Advises (e : SolverError) (fa fb : Float) : Prop where
  lower : e.hint? = some .lowerTheLowerBound ↔ 0.0 < fa ∧ 0.0 < fb
  raise : e.hint? = some .raiseTheUpperBound ↔ fa < 0.0 ∧ fb < 0.0
  indeterminate : e.hint? = some .indeterminate ↔ fa.isNaN = true ∨ fb.isNaN = true

private theorem advises_noSignChange (a b : Float) {fa fb : Float}
    (h : SameSigns fa fb ∨ fa.isNaN = true ∨ fb.isNaN = true) :
    (noSignChange a b fa fb).Advises fa fb := by
  have hnumbers (hs : SameSigns fa fb) : ¬ (fa.isNaN = true ∨ fb.isNaN = true) := by
    rw [hs.isNaN.1, hs.isNaN.2, or_self]
    exact Bool.false_ne_true
  rcases h with (hpos | hneg) | hnan
  · have hhint : (noSignChange a b fa fb).hint? = some .lowerTheLowerBound :=
      congrArg some (if_pos hpos)
    have hnotneg : ¬ (fa < 0.0 ∧ fb < 0.0) := fun hneg => lt_asymm hpos.1 hneg.1
    exact ⟨iff_of_true hhint hpos, iff_of_false (by rw [hhint]; decide) hnotneg,
      iff_of_false (by rw [hhint]; decide) (hnumbers (.inl hpos))⟩
  · have hnotpos : ¬ (0.0 < fa ∧ 0.0 < fb) := fun hpos => lt_asymm hpos.1 hneg.1
    have hhint : (noSignChange a b fa fb).hint? = some .raiseTheUpperBound :=
      congrArg some ((if_neg hnotpos).trans (if_pos hneg))
    exact ⟨iff_of_false (by rw [hhint]; decide) hnotpos, iff_of_true hhint hneg,
      iff_of_false (by rw [hhint]; decide) (hnumbers (.inr hneg))⟩
  · have hnotpos : ¬ (0.0 < fa ∧ 0.0 < fb) := fun hpos => hnumbers (.inl hpos) hnan
    have hnotneg : ¬ (fa < 0.0 ∧ fb < 0.0) := fun hneg => hnumbers (.inr hneg) hnan
    have hhint : (noSignChange a b fa fb).hint? = some .indeterminate :=
      congrArg some ((if_neg hnotpos).trans (if_neg hnotneg))
    exact ⟨iff_of_false (by rw [hhint]; decide) hnotpos, iff_of_false (by rw [hhint]; decide) hnotneg,
      iff_of_true hhint hnan⟩

end SolverError

namespace Bisection
variable {σ : Type} {f : Sampler σ} {bracket : Bracket} {cfg : BisectionConfig} {s : σ}

/-- A missing change of sign is reported for the values of the ends, if neither is small and they have no
opposite signs. -/
theorem result_eq_noSignChange_iff {a b fa fb : Float} :
    (bisection f bracket cfg s).1.result = .error (.noSignChange a b fa fb) ↔
      a = bracket.left ∧ b = bracket.right ∧
      (∃ later, samples f bracket cfg s = ⟨a, .ok fa⟩ :: ⟨b, .ok fb⟩ :: later) ∧
      ¬ fa.abs < cfg.tolerance.value ∧ ¬ fb.abs < cfg.tolerance.value ∧ ¬ OppositeSigns fa fb := by
  constructor
  · intro h
    rcases error_cases h with ⟨-, he | ⟨step, he⟩⟩ | ⟨cause, he⟩ | ⟨fa', fb', he, hends⟩
    · cases he
    · cases he
    · cases he
    · cases he
      obtain ⟨course, evaluations, hits, hselects, hresult⟩ := selects_of_samples hends.samples_eq
      rcases course.error_cases (hresult.symm.trans h) with ⟨cause, -, he⟩ | ⟨fa', fb', rfl, he⟩
      · cases he
      · cases he
        cases hselects with
        | noSignChange left right same =>
          exact ⟨rfl, rfl, ⟨[], hends.samples_eq⟩, left, right, same⟩
  · rintro ⟨rfl, rfl, ⟨later, hsamples⟩, left, right, same⟩
    obtain ⟨course, evaluations, hits, hselects, hresult⟩ := selects_of_samples hsamples
    rw [hresult]
    cases hselects with
    | left small => exact absurd small left
    | right _ small => exact absurd small right
    | noSignChange => rfl
    | narrow _ _ opposite => exact absurd opposite same
    | halved _ _ opposite => exact absurd opposite same

/-- A missing change of sign is reported exactly for two values of the ends that are not small and have the
same sign or of which one is no number; and the advice that goes with it tells which of these it was. -/
theorem noSignChange_advises (f : Sampler σ) (bracket : Bracket) (cfg : BisectionConfig) (s : σ)
    (a b fa fb : Float) :
    let tol := cfg.tolerance.value
    let error : SolverError := .noSignChange a b fa fb
    let reported := (bisection f bracket cfg s).1.result = .error error
    (reported ↔ a = bracket.left ∧ b = bracket.right ∧
      (∃ later, samples f bracket cfg s = ⟨a, .ok fa⟩ :: ⟨b, .ok fb⟩ :: later) ∧
      ¬ fa.abs < tol ∧ ¬ fb.abs < tol ∧ (SameSigns fa fb ∨ fa.isNaN = true ∨ fb.isNaN = true)) ∧
    (reported → ¬ (fa == 0.0) = true ∧ ¬ (fb == 0.0) = true ∧ error.Advises fa fb) := by
  intro tol error reported
  have htol : 0.0 < tol := tolerance_pos cfg.tolerance
  constructor
  · constructor
    · intro h
      obtain ⟨ha, hb, hsamples, left, right, same⟩ := result_eq_noSignChange_iff.mp h
      exact ⟨ha, hb, hsamples, left, right, (not_oppositeSigns_iff htol left right).mp same⟩
    · rintro ⟨ha, hb, hsamples, left, right, same⟩
      exact result_eq_noSignChange_iff.mpr
        ⟨ha, hb, hsamples, left, right, (not_oppositeSigns_iff htol left right).mpr same⟩
  · intro h
    obtain ⟨-, -, -, left, right, same⟩ := result_eq_noSignChange_iff.mp h
    exact ⟨not_zero_of_not_small htol left, not_zero_of_not_small htol right,
      SolverError.advises_noSignChange a b ((not_oppositeSigns_iff htol left right).mp same)⟩

/-- A function that is infinite at the left end and no number at the right one. -/
theorem noSignChange_advises_undefined :
    let f : Sampler Nat := fun x n => (.ok (if x < 0.5 then -1.0 / 0.0 else 0.0 / 0.0), n + 1)
    let cfg : BisectionConfig := ⟨⟨0.375, by decide +kernel⟩, 10⟩
    let error : SolverError := .noSignChange 0.0 1.0 (-1.0 / 0.0) (0.0 / 0.0)
    samples f ⟨0.0, 1.0⟩ cfg 0 = [⟨0.0, .ok (-1.0 / 0.0)⟩, ⟨1.0, .ok (0.0 / 0.0)⟩] ∧
    (bisection f ⟨0.0, 1.0⟩ cfg 0).1.result = .error error ∧ error.hint? = some .indeterminate := by
  intro f cfg error
  have hsamples : samples f ⟨0.0, 1.0⟩ cfg 0 = [⟨0.0, .ok (-1.0 / 0.0)⟩, ⟨1.0, .ok (0.0 / 0.0)⟩] := by
    decide +kernel
  have hnan : Float.isNaN (0.0 / 0.0) = true := by decide +kernel
  obtain ⟨hiff, hadvice⟩ :=
    noSignChange_advises f ⟨0.0, 1.0⟩ cfg 0 0.0 1.0 (-1.0 / 0.0) (0.0 / 0.0)
  have hreported := hiff.mpr ⟨rfl, rfl, ⟨[], hsamples⟩, by decide +kernel, by decide +kernel, .inr (.inr hnan)⟩
  obtain ⟨-, -, hadvises⟩ := hadvice hreported
  exact ⟨hsamples, hreported, hadvises.indeterminate.mpr (.inr hnan)⟩

end Bisection
end FormulaRoots
