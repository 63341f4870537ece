import FormulaRoots.Proofs.Binary64.Nearest

/-! Rounding as the operations on doubles do it: mantissa, round bit and sticky bit are shifted to the
last place, and what comes out is the quotient rounded to 53 bits. Magnitudes are counted in steps of
2 ^ -1074, the least distance between doubles. -/
namespace FormulaRoots.Binary64
open Float.Model Float.Model.UnpackedFloat

/-- An extended mantissa tells the integer part of `n / d` and how the rest compares with a half. -/
structure StandsFor (em : ExtendedMantissa) (n d : Nat) : Prop where
  mantissa_eq : em.mantissa = n / d
  accuracy_eq : em.accuracy = accuracyOfFraction (n % d) d

private theorem standsFor_ofMantissaAndAccuracy (n d : Nat) :
    StandsFor (.ofMantissaAndAccuracy (n / d) (accuracyOfFraction (n % d) d)) n d := by
  cases ha : accuracyOfFraction (n % d) d with
  | exact => exact ⟨rfl, ha.symm⟩
  | inexact order => cases order <;> exact ⟨rfl, ha.symm⟩

private theorem StandsFor.roundedMantissa_eq {em : ExtendedMantissa} {n d : Nat} (hd : 0 < d)
    (h : StandsFor em n d) : em.roundedMantissa = nearest n d := by
  rw [ExtendedMantissa.roundedMantissa, h.mantissa_eq, h.accuracy_eq, accuracyOfFraction, nearest]
  by_cases hr : n % d = 0
  · rw [if_pos hr, hr, if_pos (by omega)]
    rfl
  · rw [if_neg hr]
    rcases Nat.lt_trichotomy (2 * (n % d)) d with hlt | heq | hgt
    · rw [Nat.compare_eq_lt.mpr hlt, if_pos hlt]
      rfl
    · rw [Nat.compare_eq_eq.mpr heq, if_neg (by omega), if_pos heq]
      rfl
    · rw [Nat.compare_eq_gt.mpr hgt, if_neg (by omega), if_neg (by omega)]
      rfl

private theorem StandsFor.lost_eq {em : ExtendedMantissa} {n d : Nat} (h : StandsFor em n d) :
    (em.roundBit || em.stickyBit) = decide (n % d ≠ 0) := by
  have ha := h.accuracy_eq
  obtain ⟨m, roundBit, stickyBit⟩ := em
  by_cases hr : n % d = 0
  · rw [accuracyOfFraction, if_pos hr] at ha
    cases roundBit <;> cases stickyBit <;> simp_all [ExtendedMantissa.accuracy]
  · rw [accuracyOfFraction, if_neg hr] at ha
    cases roundBit <;> cases stickyBit <;> simp_all [ExtendedMantissa.accuracy]

private theorem StandsFor.shiftRightOne {em : ExtendedMantissa} {n d : Nat} (hd : 0 < d)
    (h : StandsFor em n d) : StandsFor em.shiftRightOne n (d * 2) := by
  have hlost := h.lost_eq
  have hmod : n % (d * 2) = n % d + d * (n / d % 2) := Nat.mod_mul
  have hlt : n % d < d := Nat.mod_lt n hd
  constructor
  · rw [← Nat.div_div_eq_div_mul, ← h.mantissa_eq]
    rfl
  · unfold ExtendedMantissa.shiftRightOne
    rw [hlost, h.mantissa_eq]
    rcases Nat.mod_two_eq_zero_or_one (n / d) with he | ho
    · rw [hmod, he, Nat.mul_zero, Nat.add_zero]
      by_cases hr : n % d = 0
      · simp [hr, accuracyOfFraction, ExtendedMantissa.accuracy]
      · have : compare (2 * (n % d)) (d * 2) = .lt := Nat.compare_eq_lt.mpr (by omega)
        simp [hr, accuracyOfFraction, ExtendedMantissa.accuracy, this]
    · rw [hmod, ho, Nat.mul_one]
      have hne : n % d + d ≠ 0 := by omega
      by_cases hr : n % d = 0
      · have : compare (2 * d) (d * 2) = .eq := Nat.compare_eq_eq.mpr (by omega)
        simp [hr, accuracyOfFraction, ExtendedMantissa.accuracy, this, Nat.ne_of_gt hd]
      · have : compare (2 * (n % d + d)) (d * 2) = .gt := Nat.compare_eq_gt.mpr (by omega)
        simp [hr, accuracyOfFraction, ExtendedMantissa.accuracy, this, Nat.ne_of_gt hd]

private theorem StandsFor.shiftRight {em : ExtendedMantissa} {n d : Nat} (hd : 0 < d)
    (h : StandsFor em n d) (k : Nat) : StandsFor (em >>> k) n (d * 2 ^ k) := by
  induction k with
  | zero =>
    rw [Nat.pow_zero, Nat.mul_one]
    exact h
  | succ k ih =>
    rw [Nat.pow_succ, ← Nat.mul_assoc]
    exact ih.shiftRightOne (Nat.mul_pos hd (Nat.two_pow_pos k))

theorem targetExponent_binary64 (t : Int) :
    Format.binary64.targetExponent t = max (t - 53) (-1074) := rfl

def ofMantissa (sign : Sign) (m : Nat) (e : Int) : UnpackedFloat :=
  if h : m = 0 then .zero sign else .finite sign m e (Nat.pos_of_ne_zero h)

@[simp] theorem ofMantissa_zero (sign : Sign) (e : Int) : ofMantissa sign 0 e = .zero sign := rfl

theorem ofMantissa_of_pos (sign : Sign) {m : Nat} (hm : 0 < m) (e : Int) :
    ofMantissa sign m e = .finite sign m e hm :=
  dif_neg (Nat.ne_of_gt hm)

/-- Rounding shifts to the target exponent, and once more after a carry. -/
theorem roundWithAccuracy_eq_ofMantissa (sign : Sign) (m : Nat) (e : Int) (accuracy : Accuracy) :
    roundWithAccuracy .binary64 sign m e accuracy =
      let first := shiftToTargetExponent .binary64 m e accuracy
      let second := shiftToTargetExponent .binary64 first.1.roundedMantissa first.2 .exact
      ofMantissa sign second.1.mantissa second.2 := rfl

def ofSteps (sign : Sign) (n : Nat) : UnpackedFloat :=
  ofMantissa sign (n / 2 ^ (n.log2 - 52)) (((n.log2 - 52 : Nat) : Int) - 1074)

/-- A mantissa has 53 bits unless its exponent is the least. -/
theorem ofSteps_mul_two_pow (sign : Sign) {m p : Nat} (hm : 0 < m) (hlt : m < 2 ^ 53)
    (hp : 2 ^ 52 ≤ m ∨ p = 0) : ofSteps sign (m * 2 ^ p) = .finite sign m ((p : Int) - 1074) hm := by
  have hlog : (m * 2 ^ p).log2 - 52 = p := by
    have hpos : m * 2 ^ p ≠ 0 := Nat.ne_of_gt (Nat.mul_pos hm (Nat.two_pow_pos p))
    have hhi : (m * 2 ^ p).log2 < 53 + p := by
      rw [Nat.log2_lt hpos, Nat.pow_add]
      exact Nat.mul_lt_mul_of_pos_right hlt (Nat.two_pow_pos p)
    rcases hp with hlo | rfl
    · have : 52 + p ≤ (m * 2 ^ p).log2 := by
        rw [Nat.le_log2 hpos, Nat.pow_add]
        exact Nat.mul_le_mul_right _ hlo
      omega
    · omega
  have hdiv : m * 2 ^ p / 2 ^ p = m := Nat.mul_div_left m (Nat.two_pow_pos p)
  rw [ofSteps, hlog, hdiv, ofMantissa_of_pos]

/-- The unpacked form of a short magnitude. -/
theorem ofSteps_cases (sign : Sign) {n : Nat} (hn : IsShort n) :
    (n = 0 ∧ ofSteps sign n = .zero sign) ∨
    ∃ (m p : Nat) (hm : 0 < m), m < 2 ^ 53 ∧ (2 ^ 52 ≤ m ∨ p = 0) ∧ n = m * 2 ^ p ∧
      ofSteps sign n = .finite sign m ((p : Int) - 1074) hm := by
  by_cases h0 : n = 0
  · subst h0
    exact .inl ⟨rfl, rfl⟩
  · obtain ⟨m, p, hm, hlt, hp, rfl⟩ := hn.exists_normal h0
    exact .inr ⟨m, p, hm, hlt, hp, rfl, ofSteps_mul_two_pow sign hm hlt hp⟩

private theorem log2_mul_two_pow_div {n d : Nat} (hd : 0 < d) (hq : n / d ≠ 0) (e : Nat) :
    (n * 2 ^ e / d).log2 = (n / d).log2 + e := by
  have hlo := Nat.log2_self_le hq
  have hhi := Nat.lt_log2_self (n := n / d)
  rw [Nat.le_div_iff_mul_le hd] at hlo
  rw [Nat.div_lt_iff_lt_mul hd] at hhi
  have hle : 2 ^ ((n / d).log2 + e) ≤ n * 2 ^ e / d := by
    rw [Nat.le_div_iff_mul_le hd, Nat.pow_add, Nat.mul_right_comm]
    exact Nat.mul_le_mul_right _ hlo
  have hlt : n * 2 ^ e / d < 2 ^ ((n / d).log2 + e + 1) := by
    rw [Nat.div_lt_iff_lt_mul hd, Nat.add_right_comm, Nat.pow_add, Nat.mul_right_comm]
    exact Nat.mul_lt_mul_of_pos_right hhi (Nat.two_pow_pos e)
  have hne : n * 2 ^ e / d ≠ 0 := Nat.ne_of_gt (Nat.lt_of_lt_of_le (Nat.two_pow_pos _) hle)
  exact (Nat.log2_eq_iff hne).mpr ⟨hle, hlt⟩

private theorem targetExponent_eq_lastPlace {n d e : Nat} (hd : 0 < d)
    (he : (e : Int) - 1074 ≤ Format.binary64.targetExponent (totalExponent (n / d) (e - 1074))) :
    Format.binary64.targetExponent (totalExponent (n / d) (e - 1074)) =
      (lastPlace (n * 2 ^ e) d : Int) - 1074 := by
  rw [targetExponent_binary64, totalExponent] at he ⊢
  unfold lastPlace
  by_cases hq : n / d = 0
  · have he0 : e = 0 := by
      rw [hq, show Nat.log2 0 = 0 from rfl] at he
      omega
    subst he0
    rw [Nat.pow_zero, Nat.mul_one, hq, show Nat.log2 0 = 0 from rfl]
    rfl
  · rw [log2_mul_two_pow_div hd hq]
    omega

private theorem shiftToTargetExponent_of_lt {m : Nat} (hm : m < 2 ^ 53) (p : Nat) :
    shiftToTargetExponent .binary64 m ((p : Int) - 1074) .exact =
      (.ofMantissaAndAccuracy m .exact, (p : Int) - 1074) := by
  have hlog := log2_le_of_lt hm
  have hk : (max ((m.log2 : Int) + 1 + ((p : Int) - 1074) - 53) (-1074) - ((p : Int) - 1074)).toNat = 0 := by
    omega
  unfold shiftToTargetExponent shiftToExponent
  simp only [targetExponent_binary64, totalExponent, hk]
  rw [Int.natCast_zero, Int.add_zero]
  rfl

private theorem shiftToTargetExponent_two_pow (p : Nat) :
    (shiftToTargetExponent .binary64 (2 ^ 53) ((p : Int) - 1074) .exact).1.mantissa = 2 ^ 52 ∧
    (shiftToTargetExponent .binary64 (2 ^ 53) ((p : Int) - 1074) .exact).2 =
      ((p + 1 : Nat) : Int) - 1074 := by
  have hk : (max (((2 ^ 53 : Nat).log2 : Int) + 1 + ((p : Int) - 1074) - 53) (-1074)
      - ((p : Int) - 1074)).toNat = 1 := by
    rw [Nat.log2_two_pow]
    omega
  unfold shiftToTargetExponent shiftToExponent
  simp only [targetExponent_binary64, totalExponent, hk]
  constructor
  · rfl
  · omega

theorem roundWithAccuracy_eq_ofSteps (sign : Sign) {n d e : Nat} (hd : 0 < d)
    (he : (e : Int) - 1074 ≤ Format.binary64.targetExponent (totalExponent (n / d) (e - 1074))) :
    roundWithAccuracy .binary64 sign (n / d) (e - 1074) (accuracyOfFraction (n % d) d) =
      ofSteps sign (roundQuotient (n * 2 ^ e) d) := by
  have ht := targetExponent_eq_lastPlace hd he
  have hle := nearest_lastPlace_le (n * 2 ^ e) d
  have hge := le_nearest_lastPlace (n := n * 2 ^ e) (d := d)
  unfold roundQuotient
  rw [ht] at he
  -- the first shift brings the mantissa to the last place
  have hfirst : (shiftToTargetExponent .binary64 (n / d) ((e : Int) - 1074)
      (accuracyOfFraction (n % d) d)).1.roundedMantissa =
        nearest (n * 2 ^ e) (d * 2 ^ lastPlace (n * 2 ^ e) d) := by
    have hk : ((lastPlace (n * 2 ^ e) d : Int) - 1074 - (e - 1074)).toNat =
        lastPlace (n * 2 ^ e) d - e := by omega
    unfold shiftToTargetExponent shiftToExponent
    simp only [ht, hk]
    rw [((standsFor_ofMantissaAndAccuracy n d).shiftRight hd _).roundedMantissa_eq
      (Nat.mul_pos hd (Nat.two_pow_pos _)), ← nearest_mul_right (Nat.two_pow_pos e), Nat.mul_assoc,
      ← Nat.pow_add, Nat.sub_add_cancel (by omega)]
  have hexponent : (shiftToTargetExponent .binary64 (n / d) ((e : Int) - 1074)
      (accuracyOfFraction (n % d) d)).2 = (lastPlace (n * 2 ^ e) d : Int) - 1074 := by
    unfold shiftToTargetExponent shiftToExponent
    simp only [ht]
    omega
  simp only [roundWithAccuracy_eq_ofMantissa, hfirst, hexponent]
  generalize nearest (n * 2 ^ e) (d * 2 ^ lastPlace (n * 2 ^ e) d) = m at *
  generalize lastPlace (n * 2 ^ e) d = p at *
  rcases Nat.lt_or_eq_of_le hle with hlt | rfl
  · simp only [shiftToTargetExponent_of_lt hlt]
    by_cases hm : m = 0
    · subst hm
      rw [Nat.zero_mul]
      rfl
    · have hpos := Nat.pos_of_ne_zero hm
      rw [ofSteps_mul_two_pow sign hpos hlt ((Nat.eq_zero_or_pos p).symm.imp_left hge)]
      exact ofMantissa_of_pos sign hpos _
  · obtain ⟨hmantissa, hexponent⟩ := shiftToTargetExponent_two_pow p
    rw [two_pow_mul_two_pow_succ, ofSteps_mul_two_pow sign (by decide) (by decide) (.inl (Nat.le_refl _)),
      hmantissa, hexponent, ofMantissa_of_pos]

private theorem round_eq_ofSteps (sign : Sign) {m : Nat} (hm : 0 < m) (e : Nat) :
    Float.Model.UnpackedFloat.round .binary64 sign m ((e : Int) - 1074) =
      ofSteps sign (roundQuotient (m * 2 ^ e) 1) := by
  -- the exponent is first brought down to the target, but not below the least
  have hlog (k : Nat) : (m * 2 ^ k).log2 = m.log2 + k := by
    have := log2_mul_two_pow_div Nat.one_pos (n := m) (by rw [Nat.div_one]; omega) k
    rwa [Nat.div_one, Nat.div_one] at this
  have htarget := targetExponent_binary64 (totalExponent m ((e : Int) - 1074))
  unfold totalExponent at htarget
  unfold Float.Model.UnpackedFloat.round decreaseExponent totalExponent
  simp only [htarget]
  generalize hk : ((e : Int) - 1074 - max ((m.log2 : Int) + 1 + ((e : Int) - 1074) - 53) (-1074)).toNat
    = k
  have he : (e : Int) - 1074 - k = ((e - k : Nat) : Int) - 1074 := by omega
  have hcond : ((e - k : Nat) : Int) - 1074 ≤ Format.binary64.targetExponent
      (totalExponent (m <<< k / 1) (((e - k : Nat) : Int) - 1074)) := by
    rw [targetExponent_binary64, totalExponent, Nat.div_one, Nat.shiftLeft_eq, hlog]
    omega
  have hround := roundWithAccuracy_eq_ofSteps sign Nat.one_pos hcond
  rw [Nat.div_one, Nat.mod_one] at hround
  rw [he]
  refine hround.trans ?_
  rw [Nat.shiftLeft_eq, Nat.mul_assoc, ← Nat.pow_add, Nat.add_sub_cancel' (by omega)]

def signOf (x : Int) : Sign :=
  if x < 0 then .negative else .positive

theorem normalize_eq_ofSteps (v : Int) (e : Nat) :
    UnpackedFloat.normalize .binary64 v ((e : Int) - 1074) .positive =
      ofSteps (signOf v) (roundQuotient (v.natAbs * 2 ^ e) 1) := by
  unfold UnpackedFloat.normalize signOf
  rcases Int.lt_trichotomy v 0 with h | rfl | h
  · rw [show compare v 0 = .lt from Int.compare_eq_lt.mpr h, if_pos h]
    simp only
    rw [round_eq_ofSteps _ (by omega), show (-v).toNat = v.natAbs by omega]
  · rw [Int.natAbs_zero, Nat.zero_mul]
    rfl
  · rw [show compare v 0 = .gt from Int.compare_eq_gt.mpr h, if_neg (by omega)]
    simp only
    rw [round_eq_ofSteps _ (by omega), show v.toNat = v.natAbs by omega]

end FormulaRoots.Binary64
