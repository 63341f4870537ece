import FormulaRoots.Decimal.Basic
import FormulaRoots.Proofs.Binary64.Scientific

/-! The double of a decimal number is the one nearest to it: the numbers that are answered without rounding
would be rounded to zero or beyond the greatest double. -/
namespace FormulaRoots
open Binary64

namespace Decimal
variable {d : Decimal}

def rounded (d : Decimal) : Nat :=
  roundQuotient (d.digits * 10 ^ d.exponent.toNat * unit) (10 ^ (-d.exponent).toNat)

def extend (d : Decimal) (k : Nat) : Decimal :=
  ⟨d.digits * 10 ^ k, d.exponent - k⟩

private theorem ten_pow_pos (k : Nat) : 0 < 10 ^ k :=
  Nat.pow_pos (by decide)

theorem rounded_of_digits_eq_zero (h : d.digits = 0) : d.rounded = 0 := by
  rw [rounded, h, Nat.zero_mul, Nat.zero_mul, roundQuotient_zero]

theorem rounded_extend (d : Decimal) (k : Nat) : (d.extend k).rounded = d.rounded := by
  refine roundQuotient_congr (ten_pow_pos _) (ten_pow_pos _) ?_
  have hpow : 10 ^ k * 10 ^ (d.exponent - k).toNat * 10 ^ (-d.exponent).toNat =
      10 ^ d.exponent.toNat * 10 ^ (-(d.exponent - k)).toNat := by
    rw [← Nat.pow_add, ← Nat.pow_add, ← Nat.pow_add]
    congr 1
    omega
  dsimp only [extend]
  rw [Nat.mul_right_comm _ unit, Nat.mul_right_comm _ unit, Nat.mul_assoc d.digits,
    Nat.mul_assoc d.digits, hpow, ← Nat.mul_assoc d.digits]

/-! ### The place of the first digit -/

private theorem digits_lt_ten_pow (d : Decimal) : d.digits < 10 ^ (Nat.toDigits 10 d.digits).length :=
  (Nat.length_toDigits_le_iff (by decide) Nat.length_toDigits_pos).mp (Nat.le_refl _)

private theorem ten_pow_le_digits (h : d.digits ≠ 0) :
    10 ^ ((Nat.toDigits 10 d.digits).length - 1) ≤ d.digits := by
  rcases Nat.eq_zero_or_pos ((Nat.toDigits 10 d.digits).length - 1) with h0 | h0
  · rw [h0]
    exact Nat.pos_of_ne_zero h
  · refine Nat.le_of_not_lt fun hlt => ?_
    have := (Nat.length_toDigits_le_iff (by decide) h0).mpr hlt
    omega

private theorem length_toDigits_le (h : d.digits ≠ 0) :
    (Nat.toDigits 10 d.digits).length ≤ d.digits.log2 + 1 := by
  have hle : 2 ^ ((Nat.toDigits 10 d.digits).length - 1) ≤ d.digits :=
    Nat.le_trans (Nat.pow_le_pow_left (by decide) _) (ten_pow_le_digits h)
  have := (Nat.le_log2 h).mpr hle
  omega

private theorem unit_le_ten_pow : unit ≤ 10 ^ 324 := by
  rw [unit, twoPow]
  decide +kernel

private theorem stepLimit_le_ten_pow : stepLimit ≤ 10 ^ 310 * unit := by
  rw [unit, twoPow, stepLimit, leastNormal]
  decide +kernel

private theorem rounded_of_decade_lt (h : d.decade < -330) : d.rounded = 0 := by
  refine roundQuotient_eq_zero ?_
  have hlt := digits_lt_ten_pow d
  have hlength := Nat.length_toDigits_pos (b := 10) (n := d.digits)
  rw [decade] at h
  generalize (Nat.toDigits 10 d.digits).length = length at *
  rw [show d.exponent.toNat = 0 by omega, Nat.pow_zero, Nat.mul_one]
  calc 2 * (d.digits * unit) < 10 * (10 ^ length * 10 ^ 324) := by
        have := Nat.mul_le_mul (Nat.le_of_lt hlt) unit_le_ten_pow
        have := Nat.mul_pos (ten_pow_pos length) (ten_pow_pos 324)
        omega
    _ = 10 ^ (1 + (length + 324)) := by rw [Nat.pow_add, Nat.pow_add]
    _ ≤ 10 ^ (-d.exponent).toNat := Nat.pow_le_pow_right (by decide) (by omega)

private theorem stepLimit_le_rounded (h0 : d.digits ≠ 0) (h : 310 < d.decade) :
    stepLimit ≤ d.rounded := by
  have hle := ten_pow_le_digits h0
  rw [decade] at h
  generalize (Nat.toDigits 10 d.digits).length = length at *
  have hround := roundQuotient_of_isShort Nat.one_pos isShort_stepLimit
  rw [← hround]
  refine roundQuotient_mono Nat.one_pos (ten_pow_pos _) ?_
  rw [Nat.mul_one, Nat.mul_one]
  calc stepLimit * 10 ^ (-d.exponent).toNat
      ≤ 10 ^ 310 * unit * 10 ^ (-d.exponent).toNat := Nat.mul_le_mul_right _ stepLimit_le_ten_pow
    _ = 10 ^ (310 + (-d.exponent).toNat) * unit := by rw [Nat.mul_right_comm, Nat.pow_add]
    _ ≤ 10 ^ (length - 1 + d.exponent.toNat) * unit :=
      Nat.mul_le_mul_right _ (Nat.pow_le_pow_right (by decide) (by omega))
    _ ≤ d.digits * 10 ^ d.exponent.toNat * unit := by
      rw [Nat.pow_add]
      exact Nat.mul_le_mul_right _ (Nat.mul_le_mul_right _ hle)

/-- The double of a number is the nearest one, in all cases. -/
theorem toFloat_eq_nearestDouble (d : Decimal) : d.toFloat =
    nearestDouble (d.digits * 10 ^ d.exponent.toNat * unit) (10 ^ (-d.exponent).toNat) := by
  unfold toFloat
  split
  · rename_i hzero
    refine (nearestDouble_of_zero ?_).symm
    rcases hzero with h0 | h
    · exact rounded_of_digits_eq_zero h0
    · exact rounded_of_decade_lt h
  · rename_i hzero
    obtain ⟨h0, hlow⟩ := not_or.mp hzero
    split
    · rename_i hhigh
      exact (nearestDouble_of_stepLimit_le (stepLimit_le_rounded h0 hhigh)).symm
    · rename_i hhigh
      have hlength := length_toDigits_le h0
      have hpos := Nat.length_toDigits_pos (b := 10) (n := d.digits)
      rw [decade] at hlow hhigh
      exact ofScientific_eq_nearestDouble (Nat.pos_of_ne_zero h0) (by omega) (by omega)

end Decimal
end FormulaRoots
