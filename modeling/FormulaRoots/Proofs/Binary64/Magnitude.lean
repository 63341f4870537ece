import FormulaRoots.Proofs.Binary64.Logarithm
import FormulaRoots.Proofs.Binary64.Scientific

/-! The magnitude that the fields of a double spell out, and the double back from its magnitude. -/
namespace FormulaRoots.Binary64

/-- A magnitude in the form of doubles, whose unit is `2 ^ p` steps: 53 bits unless they end at the
units, an exponent below that of infinity, and a narrow side below each power of two. -/
structure Dyadic.IsDouble (x : Dyadic) (p : Nat) : Prop where
  exponent_eq : x.exponent = (p : Int) - 1074
  lt : x.significand < 2 ^ 53
  normal : 2 ^ 52 ≤ x.significand ∨ p = 0
  limit : p < 2046
  narrow_iff : x.narrowBelow = true ↔ x.significand = 2 ^ 52 ∧ 0 < p

variable {v : Float}

open Float.Model.UnpackedFloat in
/-- A normal number is not zero. -/
theorem steps_ne_zero_of_isNormal (h : isNormal v = true) : steps v ≠ 0 := by
  rw [isNormal, Bool.and_eq_true, bne_iff_ne, bne_iff_ne, exponentField_eq] at h
  have hunpack := unpack_eq_ofFields v.toModel.toBits.toBitVec
  rw [ofBitVec_unpackSign, ofFields, if_neg h.2, if_neg h.1] at hunpack
  have hmantissa : (@unpackMantissa .binary64 v.toModel.toBits.toBitVec).toNat < 2 ^ 52 :=
    (unpackMantissa _).isLt
  have hsteps := steps_of_ofSteps (v := v) ⟨_, _, by omega, rfl⟩ hunpack
  intro hzero
  rw [hsteps, ← Int.natAbs_eq_zero, natAbs_apply, Int.natAbs_natCast] at hzero
  exact Nat.ne_of_gt (Nat.mul_pos (by omega) (Nat.two_pow_pos _)) hzero

private theorem toNat_toBits (v : Float) : v.toBits.toNat =
    (sign v).toBitVec.toNat * 2 ^ 63 + (exponentField v * 2 ^ 52 + fractionField v) := by
  have hlt : v.toBits.toNat < 2 ^ 64 := v.toBits.toNat_lt
  have hsign : signBit v = true ↔ v.toBits.toNat / 2 ^ 63 = 1 := by
    rw [signBit, beq_iff_eq, ← UInt64.toNat_inj, UInt64.toNat_shiftRight, Nat.shiftRight_eq_div_pow]
    rfl
  have hbit : (sign v).toBitVec.toNat = v.toBits.toNat / 2 ^ 63 := by
    rw [sign]
    by_cases h : signBit v = true
    · rw [if_pos h, hsign.mp h]
      rfl
    · rw [if_neg h]
      rw [hsign] at h
      change 0 = _
      omega
  obtain ⟨hexponent, hfraction⟩ := fields_eq v
  omega

private theorem sign_eq_positive_iff (v : Float) : sign v = .positive ↔ signBit v = false := by
  rw [sign]
  cases signBit v <;> simp

private theorem exists_isDouble_magnitude (h : v.isFinite = true) : ∃ p, (magnitude v).IsDouble p ∧
    v.toBits.toNat = (sign v).toBitVec.toNat * 2 ^ 63 + (p * 2 ^ 52 + (magnitude v).significand) := by
  have hfield := exponentField_le_of_isFinite h
  have hfraction := fractionField_lt v
  have hbits := toNat_toBits v
  by_cases h0 : exponentField v = 0
  · have hmagnitude : magnitude v = ⟨fractionField v, -1074, false⟩ := by
      rw [magnitude]
      simp only [h0, if_true]
    rw [hmagnitude]
    refine ⟨0, ⟨rfl, Nat.lt_trans hfraction (by decide), .inr rfl, by decide, by simp⟩, ?_⟩
    rw [hbits, h0]
  · have hmagnitude : magnitude v = ⟨2 ^ 52 + fractionField v, (exponentField v : Int) - 1075,
        fractionField v == 0 && decide (1 < exponentField v)⟩ := by
      rw [magnitude]
      simp only [h0, if_false, Nat.pow_eq]
    rw [hmagnitude]
    have hplace : exponentField v * 2 ^ 52 + fractionField v =
        (exponentField v - 1) * 2 ^ 52 + (2 ^ 52 + fractionField v) := by omega
    refine ⟨exponentField v - 1, ⟨?_, ?_, .inl ?_, by omega, ?_⟩, hbits.trans (congrArg (_ + ·) hplace)⟩ <;>
      dsimp only
    · omega
    · omega
    · omega
    · simp only [Bool.and_eq_true, beq_iff_eq, decide_eq_true_eq]
      omega

/-- A finite double is its magnitude with its sign. -/
theorem exists_pack_magnitude (h : v.isFinite = true) : ∃ p, (magnitude v).IsDouble p ∧
    Float.ofModel (.pack (ofSteps (sign v) ((magnitude v).significand * 2 ^ p))) = v := by
  obtain ⟨p, hx, hbits⟩ := exists_isDouble_magnitude h
  have hstored := toNat_pack_ofSteps (sign v) hx.lt hx.normal hx.limit
  rw [← hbits] at hstored
  have hsame : (Float.Model.pack (ofSteps (sign v) ((magnitude v).significand * 2 ^ p))).toBits =
      v.toModel.toBits := UInt64.toNat_inj.mp hstored
  refine ⟨p, hx, ?_⟩
  generalize ofSteps (sign v) _ = packed at hsame ⊢
  obtain ⟨⟨bits, hvalid⟩⟩ := v
  exact congrArg Float.ofModel ((Float.Model.mk.injEq ..).mpr hsame)

/-- A double above zero is what is nearest to a quotient that is rounded to its magnitude. -/
theorem nearestDouble_eq {n d m : Nat} (hsign : signBit v = false)
    (hpack : Float.ofModel (.pack (ofSteps (sign v) m)) = v) (hround : roundQuotient n d = m) :
    nearestDouble n d = v := by
  rw [(sign_eq_positive_iff v).mpr hsign] at hpack
  rw [nearestDouble, hround]
  exact hpack

/-- A finite double is as many steps from zero as its fields say. -/
theorem natAbs_steps (h : v.isFinite = true) :
    ∃ p, (magnitude v).IsDouble p ∧ (steps v).natAbs = (magnitude v).significand * 2 ^ p ∧
      Float.ofModel (.pack (ofSteps (sign v) (steps v).natAbs)) = v := by
  obtain ⟨p, hx, hpack⟩ := exists_pack_magnitude h
  have hshort : IsShort ((magnitude v).significand * 2 ^ p) := ⟨_, p, hx.lt, rfl⟩
  have hunpack := unpack_pack_ofSteps (sign v) hshort
  rw [if_pos ((mul_two_pow_lt_stepLimit hx.lt hx.normal).mpr hx.limit)] at hunpack
  have hv : v.toModel.unpack = ofSteps (sign v) ((magnitude v).significand * 2 ^ p) :=
    (congrArg (fun w : Float => w.toModel.unpack) hpack).symm.trans hunpack
  have hsteps : (steps v).natAbs = (magnitude v).significand * 2 ^ p := by
    rw [steps_of_ofSteps hshort hv, natAbs_apply, Int.natAbs_natCast]
  exact ⟨p, hx, hsteps, by rw [hsteps]; exact hpack⟩

/-- The bits of a finite double are those of no other. -/
theorem ofBits_toBits (h : v.isFinite = true) : Float.ofBits v.toBits = v := by
  obtain ⟨p, -, -, hpack⟩ := natAbs_steps h
  obtain ⟨n, -, -, hv, hs⟩ := unpack_of_isFinite h
  have hn : (steps v).natAbs = n := by rw [hs, natAbs_apply, Int.natAbs_natCast]
  change Float.ofModel (.pack v.toModel.unpack) = v
  rw [hv, ← hn, hpack]

/-- Finite doubles other than zero that are equal as numbers are the same double. -/
theorem eq_of_beq_of_ne_zero {w : Float} (hv : v.isFinite = true) (hw : w.isFinite = true)
    (h : (v == w) = true) (hne : ¬ (v == 0.0) = true) : v = w := by
  have hvn := isNaN_of_isFinite hv
  have hwn := isNaN_of_isFinite hw
  rw [beq_iff_steps hvn hwn] at h
  rw [beq_zero_iff hvn] at hne
  have hsign : sign v = sign w := by
    have hbit : signBit v = signBit w := by
      rcases signBit_cases hvn with ⟨h1, _⟩ | ⟨h1, _⟩ <;> rcases signBit_cases hwn with ⟨h2, _⟩ | ⟨h2, _⟩
      · rw [h1, h2]
      · omega
      · omega
      · rw [h1, h2]
    rw [sign, sign, hbit]
  obtain ⟨-, -, -, hpack⟩ := natAbs_steps hv
  obtain ⟨-, -, -, hpack'⟩ := natAbs_steps hw
  rw [← hpack, hsign, h]
  exact hpack'

end FormulaRoots.Binary64
