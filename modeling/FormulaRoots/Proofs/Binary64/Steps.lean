import FormulaRoots.Binary64.Basic
import FormulaRoots.Proofs.Binary64.Operations
import FormulaRoots.Proofs.Binary64.Packing

/-! Finite doubles as integers: the number of steps of 2 ^ -1074 above zero. Sums, differences and
halves of doubles are those of the integers, rounded, and they are finite if and only if the rounded
integer is below the limit. -/
namespace FormulaRoots.Binary64
open Float.Model Float.Model.UnpackedFloat

/-- The number of steps above zero, negative below zero. Infinities are as far out as the limit, and NaN
counts as zero. -/
def steps (v : Float) : Int :=
  match v.toModel.unpack with
  | .finite sign m e _ => sign.apply ((m * 2 ^ (e + 1074).toNat : Nat) : Int)
  | .infinity sign => sign.apply stepLimit
  | _ => 0

def sign (v : Float) : Sign :=
  if signBit v then .negative else .positive

theorem ofBitVec_unpackSign (v : Float) :
    Sign.ofBitVec (@unpackSign .binary64 v.toModel.toBits.toBitVec) = sign v := by
  have hunpack : (@unpackSign .binary64 v.toModel.toBits.toBitVec).toNat =
      v.toBits.toNat / 2 ^ 63 % 2 := by
    unfold unpackSign
    rw [BitVec.toNat_cast, BitVec.extractLsb_toNat, Nat.shiftRight_eq_div_pow]
    rfl
  have hzero : @unpackSign .binary64 v.toModel.toBits.toBitVec = 0#1 ↔
      v.toBits.toNat / 2 ^ 63 % 2 = 0 := by
    rw [← BitVec.toNat_inj, hunpack]
    rfl
  have hsign : signBit v = true ↔ v.toBits.toNat / 2 ^ 63 = 1 := by
    rw [signBit, beq_iff_eq, ← UInt64.toNat_inj, UInt64.toNat_shiftRight, Nat.shiftRight_eq_div_pow]
    rfl
  have hlt : v.toBits.toNat < 2 ^ 64 := v.toBits.toNat_lt
  rw [sign, Sign.ofBitVec]
  by_cases h : signBit v = true
  · rw [if_pos h, if_neg]
    rw [hzero, hsign.mp h]
    decide
  · rw [if_neg h, if_pos]
    rw [hsign] at h
    rw [hzero]
    omega

theorem isFinite_of_ofSteps {v : Float} {s : Sign} {n : Nat} (hn : IsShort n)
    (h : v.toModel.unpack = ofSteps s n) : v.isFinite = true := by
  have hv : v.isFinite = v.toModel.unpack.isFinite := rfl
  rw [hv, h]
  rcases ofSteps_cases s hn with ⟨-, hs⟩ | ⟨m, p, hm, -, -, -, hs⟩
  · rw [hs]
    rfl
  · rw [hs]
    rfl

theorem steps_of_ofSteps {v : Float} {s : Sign} {n : Nat} (hn : IsShort n)
    (h : v.toModel.unpack = ofSteps s n) : steps v = s.apply n := by
  rw [steps, h]
  rcases ofSteps_cases s hn with ⟨rfl, hs⟩ | ⟨m, p, hm, -, -, rfl, hs⟩
  · rw [hs]
    cases s <;> rfl
  · rw [hs]
    simp only
    rw [show ((p : Int) - 1074 + 1074).toNat = p by omega]

/-- A double that is a number is a number of steps below the limit, or it is infinite. -/
theorem unpack_of_number {v : Float} (h : v.isNaN = false) :
    (∃ n, IsShort n ∧ n < stepLimit ∧ v.toModel.unpack = ofSteps (sign v) n ∧
      steps v = (sign v).apply n) ∨
    v.toModel.unpack = .infinity (sign v) ∧ steps v = (sign v).apply stepLimit := by
  have hv : v.isNaN = v.toModel.unpack.isNaN := rfl
  have hunpack : v.toModel.unpack = UnpackedFloat.unpack .binary64 v.toModel.toBits.toBitVec := rfl
  have hcases := unpack_cases v.toModel.toBits.toBitVec
  rw [ofBitVec_unpackSign, ← hunpack] at hcases
  rcases hcases with ⟨n, hn, hlt, hu⟩ | hu | hu
  · exact .inl ⟨n, hn, hlt, hu, steps_of_ofSteps hn hu⟩
  · refine .inr ⟨hu, ?_⟩
    rw [steps, hu]
  · rw [hv, hu] at h
    exact absurd h.symm Bool.false_ne_true

theorem isNaN_of_isFinite {v : Float} (h : v.isFinite = true) : v.isNaN = false := by
  have hfinite : v.isFinite = v.toModel.unpack.isFinite := rfl
  have hnan : v.isNaN = v.toModel.unpack.isNaN := rfl
  rw [hfinite] at h
  rw [hnan]
  cases hu : v.toModel.unpack with
  | notANumber =>
    rw [hu] at h
    exact absurd h Bool.false_ne_true
  | _ => rfl

theorem unpack_of_isFinite {v : Float} (h : v.isFinite = true) :
    ∃ n, IsShort n ∧ n < stepLimit ∧ v.toModel.unpack = ofSteps (sign v) n ∧
      steps v = (sign v).apply n := by
  have hv : v.isFinite = v.toModel.unpack.isFinite := rfl
  rcases unpack_of_number (isNaN_of_isFinite h) with hfinite | ⟨hu, -⟩
  · exact hfinite
  · rw [hv, hu] at h
    exact absurd h Bool.false_ne_true

theorem isShort_steps {v : Float} (h : v.isFinite = true) : IsShort (steps v).natAbs := by
  obtain ⟨n, hn, -, -, hs⟩ := unpack_of_isFinite h
  rw [hs, natAbs_apply, Int.natAbs_natCast]
  exact hn

theorem isFinite_iff_steps {v : Float} (hv : v.isNaN = false) :
    v.isFinite = true ↔ (steps v).natAbs < stepLimit := by
  rcases unpack_of_number hv with ⟨n, hn, hlt, hu, hs⟩ | ⟨hu, hs⟩
  · rw [hs, natAbs_apply, Int.natAbs_natCast]
    exact ⟨fun _ => hlt, fun _ => isFinite_of_ofSteps hn hu⟩
  · have hfinite : v.isFinite = v.toModel.unpack.isFinite := rfl
    rw [hfinite, hu, hs, natAbs_apply, Int.natAbs_natCast]
    exact ⟨fun h => absurd h Bool.false_ne_true, fun h => absurd h (Nat.lt_irrefl _)⟩

/-! ### Rounding with a sign -/

def rounded (x : Int) (d : Nat) : Int :=
  (signOf x).apply (roundQuotient x.natAbs d)

@[simp] theorem natAbs_rounded (x : Int) (d : Nat) :
    (rounded x d).natAbs = roundQuotient x.natAbs d := by
  rw [rounded, natAbs_apply, Int.natAbs_natCast]

theorem rounded_of_nonneg {x : Int} (hx : 0 ≤ x) (d : Nat) :
    rounded x d = roundQuotient x.natAbs d := by
  rw [rounded, signOf, if_neg (by omega)]
  rfl

private theorem rounded_of_neg {x : Int} (hx : x < 0) (d : Nat) :
    rounded x d = -(roundQuotient x.natAbs d : Int) := by
  rw [rounded, signOf, if_pos hx]
  rfl

theorem rounded_mono {x y : Int} (h : x ≤ y) {d : Nat} (hd : 0 < d) : rounded x d ≤ rounded y d := by
  have hmono {m n : Nat} (hmn : m ≤ n) : roundQuotient m d ≤ roundQuotient n d :=
    roundQuotient_mono hd hd (Nat.mul_le_mul_right d hmn)
  by_cases hx : 0 ≤ x
  · rw [rounded_of_nonneg hx, rounded_of_nonneg (by omega)]
    have := hmono (show x.natAbs ≤ y.natAbs by omega)
    omega
  · rw [rounded_of_neg (by omega)]
    by_cases hy : 0 ≤ y
    · rw [rounded_of_nonneg hy]
      omega
    · rw [rounded_of_neg (by omega)]
      have := hmono (show y.natAbs ≤ x.natAbs by omega)
      omega

theorem rounded_of_isShort {x : Int} (hx : IsShort x.natAbs) : rounded x 1 = x := by
  have hround := roundQuotient_of_isShort Nat.one_pos hx
  rw [Nat.mul_one] at hround
  rw [rounded, hround, signOf]
  split
  · rw [Sign.apply]
    omega
  · rw [Sign.apply]
    omega

structure IsResult (v : Float) (x : Int) (d : Nat) : Prop where
  isFinite_iff : v.isFinite = true ↔ (rounded x d).natAbs < stepLimit
  steps_eq : v.isFinite = true → steps v = rounded x d

private theorem IsRounded.isResult {u : UnpackedFloat} {x : Int} {d : Nat} (h : IsRounded u x d) :
    IsResult ⟨Float.Model.pack u⟩ x d := by
  obtain ⟨s, hs, rfl⟩ := h
  have hshort := isShort_roundQuotient x.natAbs d
  have hunpack := unpack_pack_ofSteps s hshort
  have hrounded : rounded x d = s.apply (roundQuotient x.natAbs d) := by
    cases s with
    | negative =>
      rw [Sign.apply] at hs
      by_cases hx : x < 0
      · exact rounded_of_neg hx d
      · rw [rounded_of_nonneg (by omega), show x.natAbs = 0 by omega, roundQuotient_zero]
        rfl
    | positive =>
      rw [Sign.apply] at hs
      exact rounded_of_nonneg (by omega) d
  by_cases hlt : roundQuotient x.natAbs d < stepLimit
  · rw [if_pos hlt] at hunpack
    have hfinite := isFinite_of_ofSteps (v := ⟨Float.Model.pack _⟩) hshort hunpack
    refine ⟨⟨fun _ => ?_, fun _ => hfinite⟩, fun _ => ?_⟩
    · rw [natAbs_rounded]
      exact hlt
    · rw [hrounded]
      exact steps_of_ofSteps (v := ⟨Float.Model.pack _⟩) hshort hunpack
  · rw [if_neg hlt] at hunpack
    have hinf : ¬ Float.isFinite ⟨Float.Model.pack (ofSteps s (roundQuotient x.natAbs d))⟩ = true := by
      intro hfinite
      have : UnpackedFloat.isFinite (.infinity s) = true := hunpack ▸ hfinite
      exact absurd this Bool.false_ne_true
    refine ⟨⟨fun hfinite => absurd hfinite hinf, fun h => ?_⟩, fun hfinite => absurd hfinite hinf⟩
    rw [natAbs_rounded] at h
    exact absurd h hlt

section
variable {a b : Float}

theorem isResult_sub (ha : a.isFinite = true) (hb : b.isFinite = true) :
    IsResult (a - b) (steps a - steps b) 1 := by
  obtain ⟨m, hm, -, hu, hs⟩ := unpack_of_isFinite ha
  obtain ⟨n, hn, -, hv, ht⟩ := unpack_of_isFinite hb
  have h := (isRounded_sub (sign a) (sign b) hm hn).isResult
  rw [← hu, ← hv] at h
  rw [hs, ht]
  exact h

theorem isResult_add (ha : a.isFinite = true) (hb : b.isFinite = true) :
    IsResult (a + b) (steps a + steps b) 1 := by
  obtain ⟨m, hm, -, hu, hs⟩ := unpack_of_isFinite ha
  obtain ⟨n, hn, -, hv, ht⟩ := unpack_of_isFinite hb
  have h := (isRounded_add (sign a) (sign b) hm hn).isResult
  rw [← hu, ← hv] at h
  rw [hs, ht]
  exact h

theorem isResult_half (ha : a.isFinite = true) : IsResult (a / 2.0) (steps a) 2 := by
  obtain ⟨m, hm, -, hu, hs⟩ := unpack_of_isFinite ha
  have h := (isRounded_div_two (sign a) hm).isResult
  rw [← hu] at h
  rw [hs]
  exact h

end
end FormulaRoots.Binary64
