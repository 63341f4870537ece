import FormulaRoots.Binary64.Logarithm
import FormulaRoots.Proofs.Binary64.Order

/-! Bounds on binary logarithms: those of finite doubles are small, and that of infinity is cut to the
greatest integer. -/
namespace FormulaRoots.Binary64
open Float.Model Float.Model.UnpackedFloat

/-- Both fields, as parts of the number that the bits are. -/
theorem fields_eq (v : Float) :
    exponentField v = v.toBits.toNat / 2 ^ 52 % 2 ^ 11 ∧ fractionField v = v.toBits.toNat % 2 ^ 52 := by
  constructor
  · rw [exponentField, UInt64.toNat_and, UInt64.toNat_shiftRight, Nat.shiftRight_eq_div_pow]
    exact Nat.and_two_pow_sub_one_eq_mod _ 11
  · rw [fractionField, UInt64.toNat_and]
    exact Nat.and_two_pow_sub_one_eq_mod _ 52

theorem exponentField_eq (v : Float) :
    exponentField v = (@unpackExponent .binary64 v.toModel.toBits.toBitVec).toNat := by
  rw [(fields_eq v).1, unpackExponent, BitVec.toNat_cast, BitVec.extractLsb_toNat, Nat.shiftRight_eq_div_pow]
  rfl

theorem fractionField_lt (v : Float) : fractionField v < 2 ^ 52 := by
  rw [(fields_eq v).2]
  exact Nat.mod_lt _ (by decide)

theorem exponentField_le_of_isFinite {v : Float} (h : v.isFinite = true) : exponentField v ≤ 2046 := by
  have hv : v.isFinite = (UnpackedFloat.unpack .binary64 v.toModel.toBits.toBitVec).isFinite := rfl
  have hlt := (@unpackExponent .binary64 v.toModel.toBits.toBitVec).isLt
  rw [hv, unpack_eq_ofFields, ofFields] at h
  rw [exponentField_eq]
  by_cases he : (@unpackExponent .binary64 v.toModel.toBits.toBitVec).toNat = 2047
  · rw [if_pos he] at h
    split at h
    · exact absurd h Bool.false_ne_true
    · exact absurd h Bool.false_ne_true
  · have : (@unpackExponent .binary64 v.toModel.toBits.toBitVec).toNat < 2048 := hlt
    omega

/-- Logarithms of finite doubles are between those of the least and the greatest one. -/
theorem ceilLog2_magnitude_bounds {v : Float} (h : v.isFinite = true) :
    -1074 ≤ (magnitude v).ceilLog2 ∧ (magnitude v).ceilLog2 ≤ 1024 := by
  have hfield := exponentField_le_of_isFinite h
  have hfraction := fractionField_lt v
  have hd (d : Dyadic) : (d.significand.log2 + d.exponent : Int) ≤ d.ceilLog2 ∧
      d.ceilLog2 ≤ d.significand.log2 + d.exponent + 1 := by
    unfold Dyadic.ceilLog2
    simp only
    split <;> omega
  obtain ⟨hlow, hhigh⟩ := hd (magnitude v)
  revert hlow hhigh
  generalize (magnitude v).ceilLog2 = c
  unfold magnitude
  by_cases h0 : exponentField v = 0
  · simp only [h0, if_true]
    have := log2_le_of_lt (m := fractionField v) (by omega)
    omega
  · simp only [h0, if_false, Nat.pow_eq]
    have := log2_le_of_lt (m := 2 ^ 52 + fractionField v) (by omega)
    omega

/-- The logarithm of a finite double that is not negative is at most 1024. -/
theorem toInt_ceilLog2_le {v : Float} (h : v.isFinite = true) : (ceilLog2 v).toInt ≤ 1024 := by
  obtain ⟨hlow, hhigh⟩ := ceilLog2_magnitude_bounds h
  unfold ceilLog2
  by_cases hzero : (v == 0.0) = true
  · rw [if_pos hzero, Int64.toInt_minValue]
    decide
  · rw [if_neg hzero]
    by_cases hpos : 0.0 < v
    · rw [if_pos hpos, if_pos h, Int64.toInt_ofInt_of_le (by omega) (by omega)]
      exact hhigh
    · rw [if_neg hpos, Int64.toInt_zero]
      decide

/-- An infinite logarithm is cut to the greatest integer. -/
theorem ceilLog2_of_not_isFinite {v : Float} (hv : v.isNaN = false) (hpos : 0 ≤ steps v)
    (h : ¬ v.isFinite = true) : ceilLog2 v = Int64.maxValue := by
  have hlimit : 0 < stepLimit := lt_stepLimit_of_lt (by decide)
  have hlarge := mt (isFinite_iff_steps hv).mpr h
  have hzero : ¬ (v == 0.0) = true := by
    rw [beq_zero_iff hv]
    omega
  have hv0 : 0.0 < v := by
    rw [zero_lt_iff hv]
    omega
  rw [ceilLog2, if_neg hzero, if_pos hv0, if_neg h]

end FormulaRoots.Binary64
