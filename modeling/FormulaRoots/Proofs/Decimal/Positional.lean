import FormulaRoots.Decimal.Literal
import FormulaRoots.Proofs.Decimal.Rounded
import Mathlib.Data.List.TakeWhile

/-! A number whose digits are all written in their places is read as the same number, but for zeros at its
end. -/
namespace FormulaRoots

def pointed (whole fraction : List Char) : List Char :=
  match fraction with
  | [] => whole
  | fraction => whole ++ '.' :: fraction

namespace Literal
variable {whole fraction : List Char}

theorem naturalOf_eq_ofDigitChars (ds : List Char) : naturalOf ds = Nat.ofDigitChars 10 ds 0 :=
  Nat.ofDigitChars_eq_foldl.symm

private theorem naturalOf_append_zeros (ds : List Char) (k : Nat) :
    naturalOf (ds ++ List.replicate k '0') = naturalOf ds * 10 ^ k := by
  simp only [naturalOf_eq_ofDigitChars, Nat.ofDigitChars_append, Nat.ofDigitChars_replicate_zero, Nat.mul_comm]

private theorem naturalOf_zeros_append (ds : List Char) (k : Nat) :
    naturalOf (List.replicate k '0' ++ ds) = naturalOf ds := by
  simp only [naturalOf_eq_ofDigitChars, Nat.ofDigitChars_append, Nat.ofDigitChars_replicate_zero, Nat.mul_zero]

private theorem naturalOf_toDigits (n : Nat) : naturalOf (Nat.toDigits 10 n) = n := by
  rw [naturalOf_eq_ofDigitChars, Nat.ofDigitChars_ten_toDigits]

theorem ne_dot_of_isDigit {c : Char} (h : c.isDigit = true) : (c != '.') = true := by
  refine bne_iff_ne.mpr ?_
  rintro rfl
  cases h

/-- A mantissa is read as the digits on both sides of the point. -/
theorem toDecimal_pointed (hw : ∀ c ∈ whole, c.isDigit = true) (hf : ∀ c ∈ fraction, c.isDigit = true) :
    toDecimal ⟨pointed whole fraction, []⟩ = ⟨naturalOf (whole ++ fraction), -fraction.length⟩ := by
  have hdot : ∀ c ∈ whole, (c != '.') = true := fun c hc => ne_dot_of_isDigit (hw c hc)
  cases fraction with
  | nil =>
    simp only [toDecimal, pointed, List.filter_eq_self.mpr hw, List.dropWhile_eq_nil_iff.mpr hdot, List.append_nil]
    rfl
  | cons c fraction =>
    have hdigits : (whole ++ '.' :: c :: fraction).filter Char.isDigit = whole ++ c :: fraction := by
      rw [List.filter_append, List.filter_eq_self.mpr hw, List.filter_cons_of_neg (by decide),
        List.filter_eq_self.mpr hf]
    have hbehind : (whole ++ '.' :: c :: fraction).dropWhile (· != '.') = '.' :: c :: fraction := by
      rw [List.dropWhile_append_of_pos hdot]
      rfl
    simp only [toDecimal, pointed, hdigits, hbehind, List.drop_one, List.tail_cons]
    exact congrArg (Decimal.mk _) (Int.zero_sub _)

end Literal

namespace Decimal
open Literal

private theorem exists_dropTrailingZeros_append (ds : List Char) :
    ∃ k, dropTrailingZeros ds ++ List.replicate k '0' = ds := by
  refine ⟨(ds.reverse.takeWhile (· == '0')).length, ?_⟩
  have hzeros : ds.reverse.takeWhile (· == '0') =
      List.replicate (ds.reverse.takeWhile (· == '0')).length '0' :=
    List.eq_replicate_of_mem fun c hc => beq_iff_eq.mp (List.mem_takeWhile_imp (p := (· == '0')) hc)
  rw [dropTrailingZeros, ← List.reverse_replicate, ← hzeros, ← List.reverse_append,
    List.takeWhile_append_dropWhile, List.reverse_reverse]

private theorem isDigit_of_mem_toDigits {n : Nat} : ∀ c ∈ Nat.toDigits 10 n, c.isDigit = true :=
  fun _ hc => Nat.isDigit_of_mem_toDigits (by decide) (by decide) hc

private theorem isDigit_of_mem_zeros {k : Nat} : ∀ c ∈ List.replicate k '0', c.isDigit = true := by
  intro c hc
  rw [List.eq_of_mem_replicate hc]
  decide

def padded (d : Decimal) : List Char :=
  List.replicate (d.exponent.natAbs + 1 - (Nat.toDigits 10 d.digits).length) '0' ++ Nat.toDigits 10 d.digits

private theorem natAbs_lt_length_padded (d : Decimal) : d.exponent.natAbs < d.padded.length := by
  rw [padded, List.length_append, List.length_replicate]
  omega

private theorem isDigit_of_mem_padded (d : Decimal) : ∀ c ∈ d.padded, c.isDigit = true :=
  List.forall_mem_append.mpr ⟨isDigit_of_mem_zeros, isDigit_of_mem_toDigits⟩

private theorem naturalOf_padded (d : Decimal) : naturalOf d.padded = d.digits := by
  rw [padded, naturalOf_zeros_append, naturalOf_toDigits]

private theorem positional_of_nonneg {d : Decimal} (h : 0 ≤ d.exponent) :
    d.positional = Nat.toDigits 10 d.digits ++ List.replicate d.exponent.toNat '0' :=
  if_pos h

private theorem positional_of_neg {d : Decimal} (h : d.exponent < 0) :
    d.positional = pointed (d.padded.take (d.padded.length - d.exponent.natAbs))
      (dropTrailingZeros (d.padded.drop (d.padded.length - d.exponent.natAbs))) := by
  rw [positional, if_neg (Int.not_le.mpr h)]
  rfl

/-- Written out, a number is digits and perhaps a point between digits, and it is read as the number itself
with some zeros more at its end or without some. -/
theorem exists_positional (d : Decimal) : ∃ whole fraction, d.positional = pointed whole fraction ∧
    whole ≠ [] ∧ (∀ c ∈ whole ++ fraction, c.isDigit = true) ∧
    ∃ j k, (⟨naturalOf (whole ++ fraction), -fraction.length⟩ : Decimal).extend j = d.extend k := by
  by_cases h : 0 ≤ d.exponent
  · refine ⟨_, [], positional_of_nonneg h, List.append_ne_nil_of_left_ne_nil Nat.toDigits_ne_nil _, ?_,
      0, d.exponent.toNat, ?_⟩
    · rw [List.append_nil]
      exact List.forall_mem_append.mpr ⟨isDigit_of_mem_toDigits, isDigit_of_mem_zeros⟩
    · rw [List.append_nil, naturalOf_append_zeros, naturalOf_toDigits]
      simp only [extend, Nat.pow_zero, Nat.mul_one, List.length_nil, Decimal.mk.injEq, true_and]
      omega
  · have hlength := natAbs_lt_length_padded d
    obtain ⟨k, hk⟩ := exists_dropTrailingZeros_append (d.padded.drop (d.padded.length - d.exponent.natAbs))
    have hpadded := List.take_append_drop (d.padded.length - d.exponent.natAbs) d.padded
    have hplaces := congrArg List.length hk
    rw [← hk, ← List.append_assoc] at hpadded
    rw [List.length_append, List.length_replicate, List.length_drop] at hplaces
    refine ⟨_, _, positional_of_neg (Int.not_le.mp h), ?_, ?_, k, 0, ?_⟩
    · refine List.ne_nil_of_length_pos ?_
      rw [List.length_take]
      omega
    · intro c hc
      refine isDigit_of_mem_padded d c ?_
      rw [← hpadded]
      exact List.mem_append_left _ hc
    · have hdigits := naturalOf_padded d
      rw [← hpadded, naturalOf_append_zeros] at hdigits
      simp only [extend, hdigits, Nat.pow_zero, Nat.mul_one, Decimal.mk.injEq, true_and]
      omega

end Decimal
end FormulaRoots
