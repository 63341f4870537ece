import FormulaRoots.Proofs.Binary64.Magnitude
import FormulaRoots.Proofs.Binary64.Negation

/-! Ratios above 1. The next double above 1 is so close that no ratio of two different doubles is rounded to
1, so the binary logarithm of a ratio above 1 is positive even when the logarithm itself is tiny. -/
namespace FormulaRoots.Binary64
open Float.Model Float.Model.UnpackedFloat

private theorem twoPow_lt_roundQuotient {m n : Nat} (hn : 0 < n) (hlt : n < 2 ^ 53) (h : n < m)
    (k : Nat) :
    twoPow (52 + k) < roundQuotient (m * twoPow (52 + k)) n := by
  have hleast : roundQuotient (2 ^ 53 * 2 ^ (52 + k)) (2 ^ 53 - 1) = (2 ^ 52 + 1) * 2 ^ k := by
    rw [Nat.pow_add]
    have hk := Nat.two_pow_pos k
    refine roundQuotient_eq (by decide) (by decide) (.inl (by decide)) ?_ ?_ ?_ ?_
    all_goals
      generalize 2 ^ k = w at *
      omega
  have hratio : 2 ^ 53 * n ≤ m * (2 ^ 53 - 1) := by omega
  rw [← two_pow_eq_twoPow]
  calc 2 ^ (52 + k) = 2 ^ 52 * 2 ^ k := Nat.pow_add ..
    _ < (2 ^ 52 + 1) * 2 ^ k := Nat.mul_lt_mul_of_pos_right (Nat.lt_succ_self _) (Nat.two_pow_pos k)
    _ = roundQuotient (2 ^ 53 * 2 ^ (52 + k)) (2 ^ 53 - 1) := hleast.symm
    _ ≤ roundQuotient (m * 2 ^ (52 + k)) n := by
      refine roundQuotient_mono (by decide) hn ?_
      rw [Nat.mul_right_comm, Nat.mul_right_comm m]
      exact Nat.mul_le_mul_right _ hratio

private theorem unit_lt_stepLimit : unit < stepLimit := by
  have h := ten_pow_mul_unit_lt_stepLimit (k := 0) (by decide)
  rwa [Nat.pow_zero, Nat.one_mul] at h

/-- The ratio of a double to a smaller one is above 1. -/
theorem unit_lt_steps_div {u v : Float} (hu : u.isFinite = true) (hv : v.isFinite = true) (hpos : 0.0 < v)
    (h : v < u) : unit < steps (u / v) := by
  obtain ⟨m, p, hm, hmlt, -, hsu, hunpack⟩ := unpack_of_pos hu (lt_trans hpos h)
  obtain ⟨n, q, hn, hnlt, hq, hsv, hunpack'⟩ := unpack_of_pos hv hpos
  rw [lt_iff_steps (isNaN_of_isFinite hv) (isNaN_of_isFinite hu), hsu, hsv, Int.ofNat_lt] at h
  have hqp : q ≤ p := by
    refine Nat.le_of_not_lt fun hlt => ?_
    have := mul_two_pow_lt_mul_two_pow hmlt hq hlt
    omega
  have hmantissa : n < m * 2 ^ (p - q) := by
    refine Nat.lt_of_mul_lt_mul_right (a := 2 ^ q) ?_
    rwa [Nat.mul_assoc, ← Nat.pow_add, Nat.sub_add_cancel hqp]
  have habove : unit < roundQuotient (m * 2 ^ (p - q) * unit) n :=
    twoPow_lt_roundQuotient hn hnlt hmantissa 1022
  have hdiv := div_eq_ofSteps .positive .positive hm hn (a := p - q + 1074)
    (e := (p : Int) - 1074) (f := (q : Int) - 1074) (by omega)
  rw [← two_pow_mul_unit, ← Nat.mul_assoc] at hdiv
  have hshort := isShort_roundQuotient (m * 2 ^ (p - q) * unit) n
  generalize roundQuotient (m * 2 ^ (p - q) * unit) n = r at *
  have hstored : (u / v).toModel.unpack = UnpackedFloat.unpack .binary64 (UnpackedFloat.pack .binary64
      (UnpackedFloat.div .binary64 u.toModel.unpack v.toModel.unpack)) := rfl
  rw [hunpack, hunpack', hdiv] at hstored
  replace hstored := hstored.trans (unpack_pack_ofSteps .positive hshort)
  by_cases hlt : r < stepLimit
  · rw [if_pos hlt] at hstored
    rw [steps_of_ofSteps hshort hstored]
    exact Int.ofNat_lt.mpr habove
  · rw [if_neg hlt] at hstored
    rw [steps, hstored]
    exact Int.ofNat_lt.mpr unit_lt_stepLimit

private theorem Dyadic.one_le_ceilLog2 {x : Dyadic} {p : Nat} (hx : x.IsDouble p)
    (h : unit < x.significand * 2 ^ p) : 1 ≤ x.ceilLog2 := by
  have hexponent := hx.exponent_eq
  have hlog : 1074 ≤ x.significand.log2 + p := by
    refine Nat.le_of_not_lt fun hlow => Nat.not_lt_of_le ?_ h
    calc x.significand * 2 ^ p
        ≤ 2 ^ (x.significand.log2 + 1) * 2 ^ p := Nat.mul_le_mul_right _ (Nat.le_of_lt Nat.lt_log2_self)
      _ = 2 ^ (x.significand.log2 + 1 + p) := (Nat.pow_add ..).symm
      _ ≤ unit := two_pow_le_twoPow (by omega)
  unfold Dyadic.ceilLog2
  simp only
  by_cases hzero : x.significand.log2 + p = 1074
  · have hpower : x.significand ≠ Nat.pow 2 x.significand.log2 := by
      intro heq
      have hunit : x.significand * 2 ^ p = unit := by
        rw [heq, Nat.pow_eq, ← Nat.pow_add, two_pow_eq_twoPow, hzero]
        rfl
      omega
    have hexact (excess unit : Nat) : roundsDownTo 0 excess unit = false := rfl
    rw [show (x.significand.log2 : Int) + x.exponent = 0 by omega, hexact, Bool.or_false,
      if_neg (mt of_decide_eq_true hpower)]
    decide
  · split <;> omega

/-- The logarithm of a number above 1 is rounded up to 1 at least. -/
theorem one_le_ceilLog2 {v : Float} (h : unit < steps v) : 1 ≤ (ceilLog2 v).toInt := by
  have hv := isNaN_of_steps_ne_zero (v := v) (by omega)
  by_cases hfinite : v.isFinite = true
  · obtain ⟨p, hx, hsteps, -⟩ := natAbs_steps hfinite
    have hlog := Dyadic.one_le_ceilLog2 hx (by omega)
    have hzero : ¬ (v == 0.0) = true := by
      rw [beq_zero_iff hv]
      omega
    have hpos : 0.0 < v := by
      rw [zero_lt_iff hv]
      omega
    have hhigh := (ceilLog2_magnitude_bounds hfinite).2
    rw [ceilLog2, if_neg hzero, if_pos hpos, if_pos hfinite,
      Int64.toInt_ofInt_of_le (by omega) (by omega)]
    exact hlog
  · rw [ceilLog2_of_not_isFinite hv (by omega) hfinite, Int64.toInt_maxValue]
    decide

end FormulaRoots.Binary64
