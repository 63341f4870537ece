import FormulaRoots.Proofs.Binary64.Steps

/-! A number in scientific notation is read as the nearest double, with the short cut for few digits and
small powers of ten as well as without it. -/
namespace FormulaRoots.Binary64
open Float.Model Float.Model.UnpackedFloat

/-- A power of two, kept closed since large ones are not to be computed. -/
@[irreducible] def twoPow (k : Nat) : Nat := 2 ^ k

private theorem twoPow_pos (k : Nat) : 0 < twoPow k := by
  rw [twoPow]
  exact Nat.two_pow_pos k

theorem two_pow_eq_twoPow (k : Nat) : 2 ^ k = twoPow k := by
  rw [twoPow]

private theorem two_pow_mul_twoPow (p k : Nat) : 2 ^ p * twoPow k = 2 ^ (p + k) := by
  rw [twoPow, Nat.pow_add]

theorem two_pow_le_twoPow {p k : Nat} (h : p ≤ k) : 2 ^ p ≤ twoPow k := by
  rw [twoPow]
  exact Nat.pow_le_pow_right (by decide) h

def unit : Nat := twoPow 1074

theorem unit_pos : 0 < unit :=
  twoPow_pos 1074

theorem two_pow_mul_unit (p : Nat) : 2 ^ p * unit = 2 ^ (p + 1074) :=
  two_pow_mul_twoPow p 1074

/-- The double nearest to `n / d` steps. -/
def nearestDouble (n d : Nat) : Float :=
  ⟨Float.Model.pack (ofSteps .positive (roundQuotient n d))⟩

theorem nearestDouble_of_zero {n d : Nat} (h : roundQuotient n d = 0) : nearestDouble n d = 0.0 := by
  have hzero : (⟨Float.Model.pack (.zero .positive)⟩ : Float) = 0.0 := by decide +kernel
  rw [nearestDouble, h]
  exact hzero

/-- From the limit on the nearest double is infinite. -/
theorem nearestDouble_of_stepLimit_le {n d : Nat} (h : stepLimit ≤ roundQuotient n d) :
    nearestDouble n d = 1.0 / 0.0 := by
  have hinfinity : (⟨Float.Model.pack (.infinity .positive)⟩ : Float) = 1.0 / 0.0 := by decide +kernel
  obtain ⟨m, p, hm, hlt, hp, heq⟩ := (isShort_roundQuotient n d).exists_normal (by
    have := lt_stepLimit_of_lt (m := 0) (by decide)
    omega)
  have hlimit : ¬ p < 2046 := by
    rw [← mul_two_pow_lt_stepLimit hlt hp, ← heq]
    exact Nat.not_lt_of_le h
  have hpack := pack_ofSteps .positive hm hlt hp
  rw [if_neg hlimit, ← heq] at hpack
  rw [nearestDouble, ← hinfinity]
  exact congrArg Float.ofModel (pack_congr hpack)

private theorem IsShort.exists_normal_of_unit_le {n : Nat} (hn : IsShort n) (h : unit ≤ n) :
    ∃ m p, 2 ^ 52 ≤ m ∧ m < 2 ^ 53 ∧ 1022 ≤ p ∧ n = m * 2 ^ p := by
  obtain ⟨m, p, -, hlt, hp, rfl⟩ := hn.exists_normal (Nat.ne_of_gt (Nat.lt_of_lt_of_le unit_pos h))
  have hle : 1022 ≤ p := by
    refine Nat.le_of_not_lt fun hlow => Nat.not_lt_of_le h ?_
    have hpow : 2 ^ 53 * 2 ^ p ≤ unit := by
      rw [← Nat.pow_add]
      exact two_pow_le_twoPow (by omega)
    exact Nat.lt_of_lt_of_le (Nat.mul_lt_mul_of_pos_right hlt (Nat.two_pow_pos p)) hpow
  exact ⟨m, p, hp.resolve_right (by omega), hlt, hle, rfl⟩

private theorem mul_ofSteps (s t : Sign) {m n : Nat} (hm : IsShort m) (hn : IsShort n) (hm1 : unit ≤ m)
    (hn1 : unit ≤ n) :
    UnpackedFloat.mul .binary64 (ofSteps s m) (ofSteps t n) =
      ofSteps (s * t) (roundQuotient (m * n) unit) := by
  obtain ⟨k, p, hk, hklt, hp, rfl⟩ := hm.exists_normal_of_unit_le hm1
  obtain ⟨l, q, hl, hllt, hq, rfl⟩ := hn.exists_normal_of_unit_le hn1
  have hround : roundQuotient (k * l * 2 ^ (p + q - 1074)) 1 =
      roundQuotient (k * 2 ^ p * (l * 2 ^ q)) unit := by
    rw [← roundQuotient_mul_right unit_pos, Nat.one_mul, Nat.mul_assoc,
      two_pow_mul_unit, Nat.sub_add_cancel (by omega), Nat.pow_add, Nat.mul_mul_mul_comm]
  rw [ofSteps_mul_two_pow s (by omega) hklt (.inl hk), ofSteps_mul_two_pow t (by omega) hllt (.inl hl),
    ← hround]
  exact mul_eq_ofSteps s t _ _ (a := p + q - 1074) (by omega)
    (.inr (Nat.le_trans hk (Nat.le_mul_of_pos_right k (by omega))))

private theorem div_ofSteps (s t : Sign) {m n : Nat} (hm : IsShort m) (hn : IsShort n) (hm1 : unit ≤ m)
    (hn1 : unit ≤ n) (hlt : n < stepLimit) :
    UnpackedFloat.div .binary64 (ofSteps s m) (ofSteps t n) =
      ofSteps (s / t) (roundQuotient (m * unit) n) := by
  obtain ⟨k, p, hk, hklt, hp, rfl⟩ := hm.exists_normal_of_unit_le hm1
  obtain ⟨l, q, hl, hllt, -, rfl⟩ := hn.exists_normal_of_unit_le hn1
  have hq := (mul_two_pow_lt_stepLimit hllt (.inl hl)).mp hlt
  have hround : roundQuotient (k * 2 ^ (p + 1074 - q)) l =
      roundQuotient (k * 2 ^ p * unit) (l * 2 ^ q) := by
    rw [← roundQuotient_mul_right (Nat.two_pow_pos q), Nat.mul_assoc, ← Nat.pow_add,
      Nat.sub_add_cancel (by omega), Nat.mul_assoc, two_pow_mul_unit]
  rw [ofSteps_mul_two_pow s (by omega) hklt (.inl hk), ofSteps_mul_two_pow t (by omega) hllt (.inl hl),
    ← hround]
  exact div_eq_ofSteps s t _ _ (a := p + 1074 - q) (by omega)

private theorem isShort_mul_unit {m : Nat} (hm : IsShort m) : IsShort (m * unit) := by
  obtain ⟨n, p, hn, rfl⟩ := hm
  exact ⟨n, p + 1074, hn, by rw [Nat.mul_assoc, two_pow_mul_unit]⟩

private theorem lt_stepLimit_of_exponent_lt {m k : Nat} (hm : m < 2 ^ 53) (hk : k < 2045) :
    m * 2 ^ k < stepLimit :=
  calc m * 2 ^ k ≤ 2 ^ 53 * 2 ^ k := Nat.mul_le_mul_right _ (Nat.le_of_lt hm)
    _ = 2 ^ 52 * 2 ^ (k + 1) := two_pow_mul_two_pow_succ k
    _ < stepLimit := (mul_two_pow_lt_stepLimit (by decide) (.inl (Nat.le_refl _))).mpr (by omega)

private theorem isShort_ten_pow {k : Nat} (hk : k ≤ 22) : IsShort (10 ^ k) := by
  refine ⟨5 ^ k, k, ?_, ?_⟩
  · exact Nat.lt_of_le_of_lt (Nat.pow_le_pow_right (by decide) hk) (by decide)
  · rw [← Nat.mul_pow]

theorem ten_pow_mul_unit_lt_stepLimit {k : Nat} (hk : k ≤ 22) : 10 ^ k * unit < stepLimit := by
  have hpow : 10 ^ k * unit = 5 ^ k * 2 ^ (k + 1074) := by
    rw [← two_pow_mul_unit, ← Nat.mul_assoc, ← Nat.mul_pow]
  have hfive : 5 ^ k < 2 ^ 53 := Nat.lt_of_le_of_lt (Nat.pow_le_pow_right (by decide) hk) (by decide)
  rw [hpow]
  exact lt_stepLimit_of_exponent_lt hfive (by omega)

/-- A natural number of at most 53 bits is a double. -/
theorem unpack_toFloat {m : Nat} (hm : m < 2 ^ 53) :
    m.toUInt64.toFloat.toModel.unpack = ofSteps .positive (m * unit) := by
  have hshort := isShort_mul_unit (isShort_of_lt hm)
  have hround := roundQuotient_of_isShort Nat.one_pos hshort
  have hm' : m.toUInt64.toNat = m := by
    rw [Nat.toUInt64, UInt64.toNat_ofNat']
    exact Nat.mod_eq_of_lt (Nat.lt_trans hm (by decide))
  have hnormal : UnpackedFloat.normalize .binary64 m 0 .positive = ofSteps .positive (m * unit) := by
    have h := normalize_eq_ofSteps m 1074
    rw [Int.natAbs_natCast, two_pow_eq_twoPow 1074, signOf, if_neg (Int.not_lt.mpr (Int.natCast_nonneg m))] at h
    rw [Nat.mul_one] at hround
    exact h.trans (congrArg _ hround)
  have hpacked : m.toUInt64.toFloat.toModel =
      Float.Model.pack (UnpackedFloat.normalize .binary64 m.toUInt64.toNat 0 .positive) := rfl
  rw [hpacked, hm', hnormal]
  refine (unpack_pack_ofSteps .positive hshort).trans (if_pos ?_)
  have hlt := lt_stepLimit_of_exponent_lt hm (k := 1074) (by decide)
  rwa [two_pow_eq_twoPow 1074] at hlt

private theorem unpack_of_steps {v : Float} {n : Nat} (hfinite : v.isFinite = true)
    (hsign : signBit v = false)
    (hsteps : steps v = n) : v.toModel.unpack = ofSteps .positive n := by
  obtain ⟨k, -, -, hunpack, hk⟩ := unpack_of_isFinite hfinite
  have hpositive : sign v = .positive := by rw [sign, hsign]; rfl
  rw [hpositive] at hunpack hk
  rw [hunpack, Int.natCast_inj.mp (hsteps.symm.trans hk)]

private theorem steps_powerOfTen (i : Fin Float.exactlyRepresentablePowersOfTen.size) :
    let v := Float.exactlyRepresentablePowersOfTen[i]
    v.isFinite = true ∧ signBit v = false ∧ steps v = (10 ^ i.val * unit : Nat) := by
  decide +kernel +revert

private theorem unpack_powerOfTen {k : Nat} (hk : k < Float.exactlyRepresentablePowersOfTen.size) :
    (Float.exactlyRepresentablePowersOfTen[k]).toModel.unpack = ofSteps .positive (10 ^ k * unit) := by
  obtain ⟨hfinite, hsign, hsteps⟩ := steps_powerOfTen ⟨k, hk⟩
  exact unpack_of_steps hfinite hsign hsteps

/-! ### Scientific notation -/

private theorem two_pow_53_mul_two_pow_1021 : 2 ^ 53 * 2 ^ 1021 = unit := by
  rw [two_pow_eq_twoPow 1021, two_pow_mul_twoPow, two_pow_eq_twoPow]
  rfl

private theorem unpacked_ofScientific {m : Nat} (hm : 0 < m) {x : Int}
    (hlow : -(2048 + m.log2 : Int) ≤ x) (hhigh : x ≤ 2048) :
    UnpackedFloat.ofScientific .binary64 m x =
      ofSteps .positive (roundQuotient (m * 10 ^ x.toNat * unit) (10 ^ (-x).toNat)) := by
  have hten (k : Nat) : 0 < 10 ^ k := Nat.pow_pos (by decide)
  have hfinite : ¬ x > 2 ^ Format.binary64.exponentBits := Int.not_lt.mpr hhigh
  have hnonzero : ¬ x < -(2 ^ Format.binary64.exponentBits + m.log2 : Int) := Int.not_lt.mpr hlow
  unfold UnpackedFloat.ofScientific
  rw [dif_neg (Nat.ne_of_gt hm), if_neg hfinite, if_neg hnonzero]
  by_cases hx : 0 ≤ x
  · have hbits : 2 ^ 52 ≤ m <<< 53 * 10 ^ x.toNat := by
      rw [Nat.shiftLeft_eq, Nat.mul_right_comm]
      calc 2 ^ 52 ≤ 2 ^ 53 := by decide
        _ ≤ m * 10 ^ x.toNat * 2 ^ 53 := Nat.le_mul_of_pos_left _ (Nat.mul_pos hm (hten _))
    have hscale : m <<< 53 * 10 ^ x.toNat * 2 ^ 1021 = m * 10 ^ x.toNat * unit := by
      rw [← two_pow_53_mul_two_pow_1021, Nat.shiftLeft_eq, Nat.mul_right_comm m, Nat.mul_assoc]
    have hmul := mul_eq_ofSteps .positive .positive (m := m <<< 53) (a := 1021) (e := -53) (f := 0)
      (by rw [Nat.shiftLeft_eq]; omega) (hten x.toNat) (by decide) (.inr hbits)
    rw [hscale] at hmul
    rw [if_pos hx, show (-x).toNat = 0 by omega]
    exact hmul
  · have hdiv := div_eq_ofSteps .positive .positive hm (hten (-x).toNat) (a := 1074) (e := 0) (f := 0)
      (by decide)
    rw [two_pow_eq_twoPow 1074] at hdiv
    rw [if_neg hx, show x.toNat = 0 by omega, Nat.pow_zero, Nat.mul_one]
    exact hdiv

private theorem ofScientific_of_short {m : Nat} (hm : 0 < m) {x : Int}
    (hshort : m < 2 ^ 53 ∧ x.natAbs ≤ 22) :
    Float.ofScientific m (decide (x < 0)) x.natAbs =
      nearestDouble (m * 10 ^ x.toNat * unit) (10 ^ (-x).toNat) := by
  have hk : x.natAbs < Float.exactlyRepresentablePowersOfTen.size := Nat.lt_succ_of_le hshort.2
  have hm1 : unit ≤ m * unit := Nat.le_mul_of_pos_left _ hm
  have hn1 : unit ≤ 10 ^ x.natAbs * unit := Nat.le_mul_of_pos_left _ (Nat.pow_pos (by decide))
  have hmshort := isShort_mul_unit (isShort_of_lt hshort.1)
  have hnshort := isShort_mul_unit (isShort_ten_pow hshort.2)
  unfold Float.ofScientific
  rw [dif_pos hshort]
  by_cases hx : x < 0
  · have hdiv := div_ofSteps .positive .positive hmshort hnshort hm1 hn1
      (ten_pow_mul_unit_lt_stepLimit hshort.2)
    rw [roundQuotient_mul_right unit_pos, ← unpack_toFloat hshort.1, ← unpack_powerOfTen hk] at hdiv
    rw [show x.toNat = 0 by omega, show (-x).toNat = x.natAbs by omega, Nat.pow_zero, Nat.mul_one]
    simp only [hx, decide_true, if_true]
    exact congrArg (fun u => (⟨Float.Model.pack u⟩ : Float)) hdiv
  · have hmul := mul_ofSteps .positive .positive hmshort hnshort hm1 hn1
    have hround : roundQuotient (m * unit * (10 ^ x.natAbs * unit)) unit =
        roundQuotient (m * 10 ^ x.natAbs * unit) 1 := by
      rw [← roundQuotient_mul_right unit_pos (m * 10 ^ x.natAbs * unit), Nat.one_mul,
        Nat.mul_mul_mul_comm, Nat.mul_assoc _ unit]
    rw [hround, ← unpack_toFloat hshort.1, ← unpack_powerOfTen hk] at hmul
    rw [show x.toNat = x.natAbs by omega, show (-x).toNat = 0 by omega]
    simp only [hx, decide_false]
    exact congrArg (fun u => (⟨Float.Model.pack u⟩ : Float)) hmul

/-- A number in scientific notation is the double nearest to it. -/
theorem ofScientific_eq_nearestDouble {m : Nat} (hm : 0 < m) {x : Int}
    (hlow : -(2048 + m.log2 : Int) ≤ x) (hhigh : x ≤ 2048) :
    Float.ofScientific m (decide (x < 0)) x.natAbs =
      nearestDouble (m * 10 ^ x.toNat * unit) (10 ^ (-x).toNat) := by
  by_cases hshort : m < 2 ^ 53 ∧ x.natAbs ≤ 22
  · exact ofScientific_of_short hm hshort
  · have hexponent : (if decide (x < 0) = true then Int.negOfNat x.natAbs else Int.ofNat x.natAbs) = x := by
      by_cases hx : x < 0
      · rw [if_pos (decide_eq_true hx), Int.negOfNat_eq]
        change -(x.natAbs : Int) = x
        omega
      · rw [if_neg (by simpa using hx)]
        exact Int.natAbs_of_nonneg (by omega)
    unfold Float.ofScientific
    rw [dif_neg hshort, hexponent]
    exact congrArg (fun u => (⟨Float.Model.pack u⟩ : Float)) (unpacked_ofScientific hm hlow hhigh)

end FormulaRoots.Binary64
