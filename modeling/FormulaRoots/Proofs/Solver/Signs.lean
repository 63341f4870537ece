import FormulaRoots.Proofs.Binary64.Order
import FormulaRoots.Solver.Bracket

/-! Signs of sampled values. The sign bits are compared, and zeros and NaN are sorted out before; what
is left are the numbers on different sides of zero. -/
namespace FormulaRoots
open Binary64

def OppositeSigns (u v : Float) : Prop :=
  (u < 0.0 ∧ 0.0 < v) ∨ (0.0 < u ∧ v < 0.0)

instance (u v : Float) : Decidable (OppositeSigns u v) :=
  inferInstanceAs (Decidable (_ ∨ _))

namespace OppositeSigns
variable {u v : Float}

theorem isNaN (h : OppositeSigns u v) : u.isNaN = false ∧ v.isNaN = false := by
  rcases h with ⟨hu, hv⟩ | ⟨hu, hv⟩
  · exact ⟨(isNaN_of_lt hu).1, (isNaN_of_lt hv).2⟩
  · exact ⟨(isNaN_of_lt hu).2, (isNaN_of_lt hv).1⟩

theorem symm (h : OppositeSigns u v) : OppositeSigns v u :=
  Or.elim h (fun h => .inr h.symm) (fun h => .inl h.symm)

theorem right_signed (h : OppositeSigns u v) : v < 0.0 ∨ 0.0 < v :=
  Or.elim h (fun h => .inr h.2) (fun h => .inl h.2)

/-- Of two numbers on different sides of zero, a third one is on the other side than one of them. -/
theorem of_left {w : Float} (h : OppositeSigns u v) (hw : w < 0.0 ∨ 0.0 < w)
    (hn : ¬ OppositeSigns u w) : OppositeSigns w v := by
  rcases h with ⟨hu, hv⟩ | ⟨hu, hv⟩
  · rcases hw with hw | hw
    · exact .inl ⟨hw, hv⟩
    · exact absurd (.inl ⟨hu, hw⟩) hn
  · rcases hw with hw | hw
    · exact absurd (.inr ⟨hu, hw⟩) hn
    · exact .inr ⟨hw, hv⟩

end OppositeSigns

theorem not_oppositeSigns_self (v : Float) : ¬ OppositeSigns v v := by
  rintro (⟨hneg, hpos⟩ | ⟨hpos, hneg⟩)
  · exact lt_asymm hneg hpos
  · exact lt_asymm hpos hneg

private theorem changesSign_eq_true (u v : Float) : changesSign u v = true ↔
    (u.isNaN = false ∧ v.isNaN = false) ∧ (¬ (u == 0.0) = true ∧ ¬ (v == 0.0) = true) ∧
      signBit u ≠ signBit v := by
  simp only [changesSign, Bool.and_eq_true, Bool.not_eq_true', bne_iff_ne, Bool.not_eq_true, and_assoc]

/-- The sign bits tell the sides of zero. -/
theorem changesSign_iff (u v : Float) : changesSign u v = true ↔ OppositeSigns u v := by
  rw [changesSign_eq_true]
  constructor
  · rintro ⟨⟨hu, hv⟩, ⟨hu0, hv0⟩, hne⟩
    rw [beq_zero_iff hu] at hu0
    rw [beq_zero_iff hv] at hv0
    rw [OppositeSigns, lt_zero_iff hu, zero_lt_iff hu, lt_zero_iff hv, zero_lt_iff hv]
    rcases signBit_cases hu with ⟨hsu, hle⟩ | ⟨hsu, hge⟩
    · rcases signBit_cases hv with ⟨hsv, hle'⟩ | ⟨hsv, hge'⟩
      · exact absurd (hsu.trans hsv.symm) hne
      · omega
    · rcases signBit_cases hv with ⟨hsv, hle'⟩ | ⟨hsv, hge'⟩
      · omega
      · exact absurd (hsu.trans hsv.symm) hne
  · intro h
    obtain ⟨hu, hv⟩ := h.isNaN
    rw [OppositeSigns, lt_zero_iff hu, zero_lt_iff hu, lt_zero_iff hv, zero_lt_iff hv] at h
    rw [beq_zero_iff hu, beq_zero_iff hv]
    refine ⟨⟨hu, hv⟩, ⟨by omega, by omega⟩, fun heq => ?_⟩
    -- equal sign bits put both numbers on one side of zero
    rcases signBit_cases hu with ⟨hsu, hle⟩ | ⟨hsu, hge⟩
    · rcases signBit_cases hv with ⟨-, hle'⟩ | ⟨hsv, -⟩
      · omega
      · exact absurd (hsu.symm.trans (heq.trans hsv)) (by decide)
    · rcases signBit_cases hv with ⟨hsv, -⟩ | ⟨-, hge'⟩
      · exact absurd (hsu.symm.trans (heq.trans hsv)) (by decide)
      · omega

/-- A number that is no smaller than a tolerance lies on one side of zero. -/
theorem abs_ge_of_not_lt {v tol : Float} (hv : v.isNaN = false) (htol : 0.0 < tol)
    (h : ¬ v.abs < tol) : tol ≤ v.abs ∧ (v < 0.0 ∨ 0.0 < v) := by
  obtain ⟨hnumber, habs⟩ := steps_abs hv
  have ht := (isNaN_of_lt htol).2
  rw [zero_lt_iff ht] at htol
  rw [lt_iff_steps hnumber ht, habs] at h
  rw [le_iff_steps ht hnumber, lt_zero_iff hv, zero_lt_iff hv, habs]
  omega

def SameSigns (u v : Float) : Prop :=
  (0.0 < u ∧ 0.0 < v) ∨ (u < 0.0 ∧ v < 0.0)

section
variable {tol u v : Float}

/-- Zero is below every tolerance. -/
theorem not_zero_of_not_small (htol : 0.0 < tol) (h : ¬ v.abs < tol) : ¬ (v == 0.0) = true := by
  intro hzero
  have hv := isNaN_of_beq hzero
  obtain ⟨habs, hsteps⟩ := steps_abs hv
  have ht := (isNaN_of_lt htol).2
  rw [beq_zero_iff hv] at hzero
  rw [zero_lt_iff ht] at htol
  rw [lt_iff_steps habs ht, hsteps, hzero] at h
  exact h htol

theorem SameSigns.isNaN (h : SameSigns u v) : u.isNaN = false ∧ v.isNaN = false := by
  rcases h with ⟨hu, hv⟩ | ⟨hu, hv⟩
  · exact ⟨(isNaN_of_lt hu).2, (isNaN_of_lt hv).2⟩
  · exact ⟨(isNaN_of_lt hu).1, (isNaN_of_lt hv).1⟩

private theorem SameSigns.not_oppositeSigns (h : SameSigns u v) : ¬ OppositeSigns u v := by
  rcases h with ⟨hu, hv⟩ | ⟨hu, hv⟩
  · rintro (⟨hu', -⟩ | ⟨-, hv'⟩)
    · exact lt_asymm hu hu'
    · exact lt_asymm hv hv'
  · rintro (⟨-, hv'⟩ | ⟨hu', -⟩)
    · exact lt_asymm hv hv'
    · exact lt_asymm hu hu'

/-- Values that are not small have no opposite signs if they have the same sign or one of them has none. -/
theorem not_oppositeSigns_iff (htol : 0.0 < tol) (hu : ¬ u.abs < tol) (hv : ¬ v.abs < tol) :
    ¬ OppositeSigns u v ↔ SameSigns u v ∨ u.isNaN = true ∨ v.isNaN = true := by
  constructor
  · intro h
    cases hun : u.isNaN with
    | true => exact .inr (.inl rfl)
    | false =>
      cases hvn : v.isNaN with
      | true => exact .inr (.inr rfl)
      | false =>
        rcases (abs_ge_of_not_lt hun htol hu).2 with hneg | hpos
        · rcases (abs_ge_of_not_lt hvn htol hv).2 with hneg' | hpos'
          · exact .inl (.inr ⟨hneg, hneg'⟩)
          · exact absurd (.inl ⟨hneg, hpos'⟩) h
        · rcases (abs_ge_of_not_lt hvn htol hv).2 with hneg' | hpos'
          · exact absurd (.inr ⟨hpos, hneg'⟩) h
          · exact .inl (.inl ⟨hpos, hpos'⟩)
  · rintro (hsame | hun | hvn) hopposite
    · exact hsame.not_oppositeSigns hopposite
    · exact Bool.false_ne_true (hopposite.isNaN.1.symm.trans hun)
    · exact Bool.false_ne_true (hopposite.isNaN.2.symm.trans hvn)

end

end FormulaRoots
