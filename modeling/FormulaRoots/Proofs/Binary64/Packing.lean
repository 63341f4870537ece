import FormulaRoots.Proofs.Binary64.Unpacked

/-! The stored form of doubles: what is packed is read back, unless it is too large, and every stored
double is read as a number of steps, as infinite, or as no number. -/
namespace FormulaRoots.Binary64
open Float.Model Float.Model.UnpackedFloat

@[irreducible] def leastNormal (p : Nat) : Nat := 2 ^ 52 * 2 ^ p

/-- Magnitudes from here on are infinite. -/
def stepLimit : Nat := leastNormal 2046

private theorem mul_two_pow_lt_leastNormal {m p q : Nat} (hlt : m < 2 ^ 53) (hp : 2 ^ 52 ≤ m ∨ p = 0)
    (hq : 0 < q) : m * 2 ^ p < leastNormal q ↔ p < q := by
  rw [leastNormal]
  constructor
  · intro h
    refine Nat.lt_of_not_le fun hge => Nat.not_le_of_lt h ?_
    exact Nat.mul_le_mul (hp.resolve_right (by omega)) (Nat.pow_le_pow_right (by decide) hge)
  · exact mul_two_pow_lt_mul_two_pow hlt (.inl (Nat.le_refl _))

/-- Only the exponent decides whether a magnitude is beyond the limit. -/
theorem mul_two_pow_lt_stepLimit {m p : Nat} (hlt : m < 2 ^ 53) (hp : 2 ^ 52 ≤ m ∨ p = 0) :
    m * 2 ^ p < stepLimit ↔ p < 2046 :=
  mul_two_pow_lt_leastNormal hlt hp (by decide)

/-- Mantissas at the least exponent are below the limit. -/
theorem lt_stepLimit_of_lt {m : Nat} (hm : m < 2 ^ 53) : m < stepLimit := by
  have h := (mul_two_pow_lt_stepLimit hm (p := 0) (.inr rfl)).mpr (by decide)
  rwa [Nat.pow_zero, Nat.mul_one] at h

theorem isShort_stepLimit : IsShort stepLimit :=
  ⟨2 ^ 52, 2046, by decide, by rw [stepLimit, leastNormal]⟩

private theorem toNat_append_one (m : BitVec 52) : (1#1 ++ m).toNat = 2 ^ 52 + m.toNat := by
  rw [BitVec.toNat_append, ← Nat.shiftLeft_add_eq_or_of_lt m.isLt]
  rfl

private theorem ofBitVec_unpackSign_packComponents (sign : Sign) (e : BitVec 11) (m : BitVec 52) :
    Sign.ofBitVec (unpackSign (packComponents .binary64 sign e m)) = sign := by
  unfold unpackSign
  simp only [packComponents, BitVec.extractLsb]
  rw [BitVec.extractLsb'_append_eq_of_le (by omega), BitVec.extractLsb'_append_eq_of_le (by omega)]
  cases sign <;> rfl

private theorem toNat_packComponents (sign : Sign) (e : BitVec 11) (m : BitVec 52) :
    (packComponents .binary64 sign e m).toNat =
      sign.toBitVec.toNat * 2 ^ 63 + (e.toNat * 2 ^ 52 + m.toNat) := by
  have hsign : (sign.toBitVec ++ e).toNat = sign.toBitVec.toNat * 2 ^ 11 + e.toNat := by
    rw [BitVec.toNat_append, ← Nat.shiftLeft_add_eq_or_of_lt e.isLt, Nat.shiftLeft_eq]
  unfold packComponents
  rw [BitVec.toNat_append, ← Nat.shiftLeft_add_eq_or_of_lt m.isLt, Nat.shiftLeft_eq]
  refine (congrArg (· * 2 ^ 52 + m.toNat) hsign).trans ?_
  omega

def ofFields (sign : Sign) (e m : Nat) : UnpackedFloat :=
  if e = 2047 then if m = 0 then .infinity sign else .notANumber
  else if e = 0 then ofSteps sign m
  else ofSteps sign ((2 ^ 52 + m) * 2 ^ (e - 1))

theorem unpack_eq_ofFields (b : BitVec Format.binary64.numBits) :
    UnpackedFloat.unpack .binary64 b = ofFields (Sign.ofBitVec (unpackSign b))
      (unpackExponent b).toNat (unpackMantissa b).toNat := by
  have hm : (unpackMantissa b).toNat < 2 ^ 52 := (unpackMantissa b).isLt
  have hinf : unpackExponent b = -1#11 ↔ (unpackExponent b).toNat = 2047 := BitVec.toNat_eq
  have hzero : unpackExponent b = 0#11 ↔ (unpackExponent b).toNat = 0 := BitVec.toNat_eq
  have hmzero : unpackMantissa b = 0#52 ↔ (unpackMantissa b).toNat = 0 := BitVec.toNat_eq
  unfold UnpackedFloat.unpack ofFields
  by_cases he : (unpackExponent b).toNat = 2047
  · rw [if_pos (hinf.mpr he), if_pos he]
    simp only [hmzero]
  · rw [if_neg (mt hinf.mp he), if_neg he]
    by_cases h0 : (unpackExponent b).toNat = 0
    · rw [if_pos (hzero.mpr h0), if_pos h0]
      by_cases hm0 : (unpackMantissa b).toNat = 0
      · rw [dif_pos (hmzero.mpr hm0), hm0]
        rfl
      · have h := ofSteps_mul_two_pow (Sign.ofBitVec (unpackSign b)) (Nat.pos_of_ne_zero hm0)
          (p := 0) (by omega) (.inr rfl)
        rw [Nat.pow_zero, Nat.mul_one] at h
        rw [dif_neg (mt hmzero.mp hm0), h, h0]
        rfl
    · have hexp : ((unpackExponent b).toNat : Int) - (Format.binary64.exponentBias + (52 : Nat)) =
          (((unpackExponent b).toNat - 1 : Nat) : Int) - 1074 := by
        rw [show Format.binary64.exponentBias = 1023 from rfl]
        omega
      have hpos : 0 < 2 ^ 52 + (unpackMantissa b).toNat := by omega
      rw [if_neg (mt hzero.mp h0), if_neg h0, ofSteps_mul_two_pow _ hpos (by omega) (.inl (by omega)),
        ← ofMantissa_of_pos _ hpos, ← hexp, ← toNat_append_one]
      exact (ofMantissa_of_pos ..).symm

private theorem unpack_packComponents (sign : Sign) {e m : Nat} (he : e < 2048) (hm : m < 2 ^ 52) :
    UnpackedFloat.unpack .binary64 (packComponents .binary64 sign (.ofNat 11 e) (.ofNat 52 m)) =
      ofFields sign e m := by
  rw [unpack_eq_ofFields, unpackExponent_packComponents, unpackMantissa_packComponents,
    ofBitVec_unpackSign_packComponents, BitVec.toNat_ofNat, BitVec.toNat_ofNat]
  change ofFields sign (e % 2048) (m % 2 ^ 52) = ofFields sign e m
  rw [Nat.mod_eq_of_lt he, Nat.mod_eq_of_lt hm]

private theorem ofFields_of_lt (sign : Sign) {e m : Nat} (he : e < 2047) (hm : m < 2 ^ 52) :
    ∃ n, IsShort n ∧ n < stepLimit ∧ ofFields sign e m = ofSteps sign n := by
  unfold ofFields
  rw [if_neg (by omega)]
  by_cases h0 : e = 0
  · exact ⟨m, isShort_of_lt (by omega), lt_stepLimit_of_lt (by omega), if_pos h0⟩
  · exact ⟨(2 ^ 52 + m) * 2 ^ (e - 1), ⟨_, _, by omega, rfl⟩,
      (mul_two_pow_lt_stepLimit (by omega) (.inl (by omega))).mpr (by omega), if_neg h0⟩

/-- The stored form of a magnitude: its exponent and its mantissa, or infinity beyond the limit. -/
theorem pack_ofSteps (sign : Sign) {m p : Nat} (hm : 0 < m) (hlt : m < 2 ^ 53) (hp : 2 ^ 52 ≤ m ∨ p = 0) :
    UnpackedFloat.pack .binary64 (ofSteps sign (m * 2 ^ p)) =
      if p < 2046 then packComponents .binary64 sign (.ofNat 11 (m / 2 ^ 52 + p)) (.ofNat 52 (m % 2 ^ 52))
      else packedInfinity .binary64 sign := by
  have hbias : ((p : Int) - 1074 + (Format.binary64.exponentBias : Nat) + (52 : Nat)).toNat = p + 1 := by
    rw [show Format.binary64.exponentBias = 1023 from rfl]
    omega
  have hne : m ≠ 0 := Nat.ne_of_gt hm
  have hpack : UnpackedFloat.pack .binary64 (.finite sign m ((p : Int) - 1074) hm) =
      if 2048 ≤ p + 1 + 1 then packedInfinity .binary64 sign
      else if m.log2 + 1 = 53 then packComponents .binary64 sign (.ofNat 11 (p + 1)) (.ofNat 52 m)
      else packComponents .binary64 sign (.ofNat 11 0) (.ofNat 52 m) := by
    unfold UnpackedFloat.pack
    simp only [hbias]
    rfl
  have hfraction : BitVec.ofNat 52 m = BitVec.ofNat 52 (m % 2 ^ 52) := by
    apply BitVec.eq_of_toNat_eq
    rw [BitVec.toNat_ofNat, BitVec.toNat_ofNat, Nat.mod_mod]
  rw [ofSteps_mul_two_pow sign hm hlt hp, hpack, hfraction]
  by_cases hlimit : p < 2046
  · rw [if_neg (by omega), if_pos hlimit]
    by_cases hlo : 2 ^ 52 ≤ m
    · have hlog : m.log2 + 1 = 53 := by
        have := (Nat.le_log2 hne).mpr hlo
        have := (Nat.log2_lt hne).mpr hlt
        omega
      rw [if_pos hlog, show m / 2 ^ 52 + p = p + 1 by omega]
    · obtain rfl : p = 0 := hp.resolve_left hlo
      have hlog : ¬ m.log2 + 1 = 53 := by
        have := (Nat.log2_lt hne).mpr (Nat.lt_of_not_le hlo)
        omega
      rw [if_neg hlog, show m / 2 ^ 52 + 0 = 0 by omega]
  · rw [if_pos (by omega), if_neg hlimit]

theorem pack_congr {u v : UnpackedFloat}
    (h : UnpackedFloat.pack .binary64 u = UnpackedFloat.pack .binary64 v) :
    Float.Model.pack u = Float.Model.pack v :=
  (Float.Model.mk.injEq ..).mpr (congrArg UInt64.ofBitVec h)

/-- A stored magnitude is read back, unless it is beyond the limit. -/
theorem unpack_pack_ofSteps (sign : Sign) {n : Nat} (hn : IsShort n) :
    UnpackedFloat.unpack .binary64 (UnpackedFloat.pack .binary64 (ofSteps sign n)) =
      if n < stepLimit then ofSteps sign n else .infinity sign := by
  rcases ofSteps_cases sign hn with ⟨rfl, hs⟩ | ⟨m, p, hm, hlt, hp, rfl, -⟩
  · rw [if_pos (lt_stepLimit_of_lt (by decide)), hs]
    cases sign <;> rfl
  · simp only [pack_ofSteps sign hm hlt hp, mul_two_pow_lt_stepLimit hlt hp]
    by_cases hlimit : p < 2046
    · rw [if_pos hlimit, if_pos hlimit, unpack_packComponents sign (by omega) (by omega), ofFields,
        if_neg (by omega)]
      by_cases hlo : 2 ^ 52 ≤ m
      · rw [if_neg (by omega), show 2 ^ 52 + m % 2 ^ 52 = m by omega, show m / 2 ^ 52 + p - 1 = p by omega]
      · obtain rfl : p = 0 := hp.resolve_left hlo
        rw [if_pos (by omega), Nat.pow_zero, Nat.mul_one, Nat.mod_eq_of_lt (by omega)]
    · rw [if_neg hlimit, if_neg hlimit]
      cases sign <;> rfl

/-- The stored form of a magnitude is the exponent behind which the mantissa is added, and the sign in front. -/
theorem toNat_pack_ofSteps (sign : Sign) {m p : Nat} (hlt : m < 2 ^ 53) (hp : 2 ^ 52 ≤ m ∨ p = 0)
    (hlimit : p < 2046) : (UnpackedFloat.pack .binary64 (ofSteps sign (m * 2 ^ p))).toNat =
      sign.toBitVec.toNat * 2 ^ 63 + (p * 2 ^ 52 + m) := by
  rcases Nat.eq_zero_or_pos m with rfl | hm
  · obtain rfl : p = 0 := hp.resolve_left (by decide)
    cases sign <;> rfl
  · rw [pack_ofSteps sign hm hlt hp, if_pos hlimit, toNat_packComponents, BitVec.toNat_ofNat,
      BitVec.toNat_ofNat]
    omega

private theorem unpack_pack_ofMantissa (sign : Sign) (m : Nat) (e : Int) :
    (∃ n, IsShort n ∧ UnpackedFloat.unpack .binary64
      (UnpackedFloat.pack .binary64 (ofMantissa sign m e)) = ofSteps sign n) ∨
    UnpackedFloat.unpack .binary64 (UnpackedFloat.pack .binary64 (ofMantissa sign m e)) =
      .infinity sign := by
  rcases Nat.eq_zero_or_pos m with rfl | hm
  · left
    refine ⟨0, isShort_of_lt (by decide), ?_⟩
    rw [ofMantissa_zero]
    cases sign <;> rfl
  · have hfraction : BitVec.ofNat 52 m = BitVec.ofNat 52 (m % 2 ^ 52) := by
      apply BitVec.eq_of_toNat_eq
      rw [BitVec.toNat_ofNat, BitVec.toNat_ofNat, Nat.mod_mod]
    have hlt : m % 2 ^ 52 < 2 ^ 52 := Nat.mod_lt _ (Nat.two_pow_pos 52)
    have hpack : UnpackedFloat.pack .binary64 (.finite sign m e hm) =
        if 2048 ≤ (e + 1023 + 52).toNat + 1 then packedInfinity .binary64 sign
        else if m.log2 + 1 = 53 then
          packComponents .binary64 sign (.ofNat 11 (e + 1023 + 52).toNat) (.ofNat 52 m)
        else packComponents .binary64 sign (.ofNat 11 0) (.ofNat 52 m) := rfl
    have hfields {e : Nat} (he : e < 2047) : ∃ n, IsShort n ∧ UnpackedFloat.unpack .binary64
        (packComponents .binary64 sign (.ofNat 11 e) (.ofNat 52 (m % 2 ^ 52))) = ofSteps sign n := by
      rw [unpack_packComponents sign (by omega) hlt]
      obtain ⟨n, hn, -, h⟩ := ofFields_of_lt sign he hlt
      exact ⟨n, hn, h⟩
    rw [ofMantissa_of_pos sign hm, hpack, hfraction]
    split
    · right
      cases sign <;> rfl
    · left
      split
      · exact hfields (by omega)
      · exact hfields (by decide)

/-- What an operation rounds is stored with its sign, as a number of steps or as infinite. -/
theorem unpack_pack_roundWithAccuracy (sign : Sign) (m : Nat) (e : Int) (accuracy : Accuracy) :
    (∃ n, IsShort n ∧ UnpackedFloat.unpack .binary64
      (UnpackedFloat.pack .binary64 (roundWithAccuracy .binary64 sign m e accuracy)) = ofSteps sign n) ∨
    UnpackedFloat.unpack .binary64
      (UnpackedFloat.pack .binary64 (roundWithAccuracy .binary64 sign m e accuracy)) = .infinity sign := by
  rw [roundWithAccuracy_eq_ofMantissa]
  exact unpack_pack_ofMantissa ..

/-- Every double is a number of steps below the limit, or infinite, or not a number. -/
theorem unpack_cases (b : BitVec Format.binary64.numBits) :
    (∃ n, IsShort n ∧ n < stepLimit ∧
      UnpackedFloat.unpack .binary64 b = ofSteps (Sign.ofBitVec (unpackSign b)) n) ∨
    UnpackedFloat.unpack .binary64 b = .infinity (Sign.ofBitVec (unpackSign b)) ∨
    UnpackedFloat.unpack .binary64 b = .notANumber := by
  have hm : (unpackMantissa b).toNat < 2 ^ 52 := (unpackMantissa b).isLt
  have he : (unpackExponent b).toNat < 2048 := (unpackExponent b).isLt
  rw [unpack_eq_ofFields]
  by_cases hinf : (unpackExponent b).toNat = 2047
  · rw [ofFields, if_pos hinf]
    by_cases hm0 : (unpackMantissa b).toNat = 0
    · exact .inr (.inl (if_pos hm0))
    · exact .inr (.inr (if_neg hm0))
  · exact .inl (ofFields_of_lt _ (by omega) hm)

end FormulaRoots.Binary64
