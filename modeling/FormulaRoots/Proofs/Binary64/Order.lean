import FormulaRoots.Proofs.Binary64.Steps

/-! Comparisons of doubles. Those that are numbers are in order, finite ones in the order of their steps,
and whether a number is below or above zero is told by its sign bit. -/
namespace FormulaRoots.Binary64
open Float.Model Float.Model.UnpackedFloat

private theorem lt_iff_compare (a b : Float) :
    a < b ↔ a.toModel.unpack.compare b.toModel.unpack = some .lt := by
  have h : a < b ↔ decide (a.toModel < b.toModel) = true := Iff.rfl
  rw [h, decide_eq_true_iff]
  exact beq_iff_eq

private theorem le_iff_compare (a b : Float) :
    a ≤ b ↔ ∃ o, a.toModel.unpack.compare b.toModel.unpack = some o ∧ o.isLE = true := by
  have h : a ≤ b ↔ decide (a.toModel ≤ b.toModel) = true := Iff.rfl
  rw [h, decide_eq_true_iff]
  exact Option.any_eq_true Ordering.isLE (a.toModel.unpack.compare b.toModel.unpack)

private theorem compare_mul_two_pow {m n p q : Nat} (hm : m < 2 ^ 53) (hp : 2 ^ 52 ≤ m ∨ p = 0)
    (hn : n < 2 ^ 53) (hq : 2 ^ 52 ≤ n ∨ q = 0) :
    (compare ((p : Int) - 1074) ((q : Int) - 1074)).then (compare m n) =
      compare (m * 2 ^ p) (n * 2 ^ q) := by
  rcases Nat.lt_trichotomy p q with h | rfl | h
  · rw [Int.compare_eq_lt.mpr (by omega), Nat.compare_eq_lt.mpr (mul_two_pow_lt_mul_two_pow hm hq h)]
    rfl
  · rw [Int.compare_eq_eq.mpr rfl, Ordering.then]
    rcases Nat.lt_trichotomy m n with h | rfl | h
    · rw [Nat.compare_eq_lt.mpr h,
        Nat.compare_eq_lt.mpr (Nat.mul_lt_mul_of_pos_right h (Nat.two_pow_pos p))]
    · rw [Nat.compare_eq_eq.mpr rfl, Nat.compare_eq_eq.mpr rfl]
    · rw [Nat.compare_eq_gt.mpr h,
        Nat.compare_eq_gt.mpr (Nat.mul_lt_mul_of_pos_right h (Nat.two_pow_pos p))]
  · rw [Int.compare_eq_gt.mpr (by omega), Nat.compare_eq_gt.mpr (mul_two_pow_lt_mul_two_pow hn hp h)]
    rfl

private theorem compare_natCast (m n : Nat) : compare (m : Int) (n : Int) = compare m n := by
  rcases Nat.lt_trichotomy m n with h | rfl | h
  · rw [Nat.compare_eq_lt.mpr h, Int.compare_eq_lt.mpr (by omega)]
  · rw [Nat.compare_eq_eq.mpr rfl, Int.compare_eq_eq.mpr rfl]
  · rw [Nat.compare_eq_gt.mpr h, Int.compare_eq_gt.mpr (by omega)]

private theorem compare_neg_natCast (m n : Nat) :
    compare (-(m : Int)) (-(n : Int)) = (compare m n).swap := by
  rcases Nat.lt_trichotomy m n with h | rfl | h
  · rw [Nat.compare_eq_lt.mpr h, Int.compare_eq_gt.mpr (by omega)]
    rfl
  · rw [Nat.compare_eq_eq.mpr rfl, Int.compare_eq_eq.mpr rfl]
    rfl
  · rw [Nat.compare_eq_gt.mpr h, Int.compare_eq_lt.mpr (by omega)]
    rfl

private theorem compare_ofSteps (s t : Sign) {m n : Nat} (hm : IsShort m) (hn : IsShort n) :
    (ofSteps s m).compare (ofSteps t n) = some (compare (s.apply m) (t.apply n)) := by
  rcases ofSteps_cases s hm with ⟨rfl, hs⟩ | ⟨m₁, p, hm₁, hm₂, hp, rfl, hs⟩
  · rcases ofSteps_cases t hn with ⟨rfl, ht⟩ | ⟨n₁, q, hn₁, -, -, rfl, ht⟩
    · rw [hs, ht]
      cases s <;> cases t <;> rfl
    · rw [hs, ht]
      have hpos : 0 < n₁ * 2 ^ q := Nat.mul_pos hn₁ (Nat.two_pow_pos q)
      cases t with
      | negative =>
        rw [Int.compare_eq_gt.mpr (by cases s <;> simp only [Sign.apply] <;> omega)]
        rfl
      | positive =>
        rw [Int.compare_eq_lt.mpr (by cases s <;> simp only [Sign.apply] <;> omega)]
        rfl
  · have hpos : 0 < m₁ * 2 ^ p := Nat.mul_pos hm₁ (Nat.two_pow_pos p)
    rcases ofSteps_cases t hn with ⟨rfl, ht⟩ | ⟨n₁, q, hn₁, hn₂, hq, rfl, ht⟩
    · rw [hs, ht]
      cases s with
      | negative =>
        rw [Int.compare_eq_lt.mpr (by cases t <;> simp only [Sign.apply] <;> omega)]
        rfl
      | positive =>
        rw [Int.compare_eq_gt.mpr (by cases t <;> simp only [Sign.apply] <;> omega)]
        rfl
    · have hpos' : 0 < n₁ * 2 ^ q := Nat.mul_pos hn₁ (Nat.two_pow_pos q)
      rw [hs, ht]
      cases s with
      | negative =>
        cases t with
        | negative =>
          rw [Sign.apply, Sign.apply, compare_neg_natCast, ← compare_mul_two_pow hm₂ hp hn₂ hq]
          rfl
        | positive =>
          rw [Int.compare_eq_lt.mpr (by simp only [Sign.apply]; omega)]
          rfl
      | positive =>
        cases t with
        | negative =>
          rw [Int.compare_eq_gt.mpr (by simp only [Sign.apply]; omega)]
          rfl
        | positive =>
          rw [Sign.apply, Sign.apply, compare_natCast, ← compare_mul_two_pow hm₂ hp hn₂ hq]
          rfl

private theorem compare_infinity (s t : Sign) {n : Nat} (hn : IsShort n) (hlt : n < stepLimit) :
    (infinity s).compare (ofSteps t n) = some (compare (s.apply stepLimit) (t.apply n)) ∧
    (ofSteps t n).compare (infinity s) = some (compare (t.apply n) (s.apply stepLimit)) := by
  have hcases : ofSteps t n = .zero t ∨ ∃ m e hm, ofSteps t n = .finite t m e hm :=
    (ofSteps_cases t hn).imp (fun h => h.2) fun ⟨m, p, hm, _, _, _, h⟩ => ⟨m, _, hm, h⟩
  cases s with
  | negative =>
    rw [Int.compare_eq_lt.mpr (by cases t <;> simp only [Sign.apply] <;> omega),
      Int.compare_eq_gt.mpr (by cases t <;> simp only [Sign.apply] <;> omega)]
    rcases hcases with h | ⟨m, e, hm, h⟩
    · rw [h]
      exact ⟨rfl, rfl⟩
    · rw [h]
      cases t <;> exact ⟨rfl, rfl⟩
  | positive =>
    rw [Int.compare_eq_gt.mpr (by cases t <;> simp only [Sign.apply] <;> omega),
      Int.compare_eq_lt.mpr (by cases t <;> simp only [Sign.apply] <;> omega)]
    rcases hcases with h | ⟨m, e, hm, h⟩
    · rw [h]
      exact ⟨rfl, rfl⟩
    · rw [h]
      cases t <;> exact ⟨rfl, rfl⟩

section
variable {a b : Float}

private theorem compare_steps (ha : a.isNaN = false) (hb : b.isNaN = false) :
    a.toModel.unpack.compare b.toModel.unpack = some (compare (steps a) (steps b)) := by
  rcases unpack_of_number ha with ⟨m, hm, hmlt, hu, hs⟩ | ⟨hu, hs⟩
  · rcases unpack_of_number hb with ⟨n, hn, -, hv, ht⟩ | ⟨hv, ht⟩
    · rw [hu, hv, hs, ht]
      exact compare_ofSteps (sign a) (sign b) hm hn
    · rw [hu, hv, hs, ht]
      exact (compare_infinity (sign b) (sign a) hm hmlt).2
  · rcases unpack_of_number hb with ⟨n, hn, hlt, hv, ht⟩ | ⟨hv, ht⟩
    · rw [hu, hv, hs, ht]
      exact (compare_infinity (sign a) (sign b) hn hlt).1
    · have hpos : 0 < stepLimit := lt_stepLimit_of_lt (by decide)
      rw [hu, hv, hs, ht]
      cases sign a with
      | negative =>
        cases sign b with
        | negative =>
          rw [Int.compare_eq_eq.mpr rfl]
          rfl
        | positive =>
          rw [Int.compare_eq_lt.mpr (by simp only [Sign.apply]; omega)]
          rfl
      | positive =>
        cases sign b with
        | negative =>
          rw [Int.compare_eq_gt.mpr (by simp only [Sign.apply]; omega)]
          rfl
        | positive =>
          rw [Int.compare_eq_eq.mpr rfl]
          rfl

theorem lt_iff_steps (ha : a.isNaN = false) (hb : b.isNaN = false) : a < b ↔ steps a < steps b := by
  rw [lt_iff_compare, compare_steps ha hb, Option.some.injEq, Int.compare_eq_lt]

theorem le_iff_steps (ha : a.isNaN = false) (hb : b.isNaN = false) : a ≤ b ↔ steps a ≤ steps b := by
  rw [le_iff_compare, compare_steps ha hb]
  simp only [Option.some.injEq, exists_eq_left', Int.isLE_compare]

theorem beq_iff_steps (ha : a.isNaN = false) (hb : b.isNaN = false) :
    (a == b) = true ↔ steps a = steps b := by
  have h : (a == b) = (a.toModel.unpack.compare b.toModel.unpack == some .eq) := rfl
  rw [h, compare_steps ha hb, beq_iff_eq, Option.some.injEq, Int.compare_eq_eq]

/-- Only numbers can be compared. -/
theorem isNaN_of_lt (h : a < b) : a.isNaN = false ∧ b.isNaN = false := by
  have ha : a.isNaN = a.toModel.unpack.isNaN := rfl
  have hb : b.isNaN = b.toModel.unpack.isNaN := rfl
  rw [lt_iff_compare] at h
  rw [ha, hb]
  generalize a.toModel.unpack = u at h
  generalize b.toModel.unpack = v at h
  constructor
  · cases u with
    | notANumber => cases h
    | _ => rfl
  · cases v with
    | notANumber => cases u <;> cases h
    | _ => rfl

/-- Only numbers are equal to something. -/
theorem isNaN_of_beq (h : (a == b) = true) : a.isNaN = false := by
  have ha : a.isNaN = a.toModel.unpack.isNaN := rfl
  have hbeq : (a == b) = (a.toModel.unpack.compare b.toModel.unpack == some .eq) := rfl
  rw [hbeq, beq_iff_eq] at h
  rw [ha]
  cases hu : a.toModel.unpack with
  | notANumber =>
    rw [hu] at h
    cases h
  | _ => rfl

theorem not_le_of_lt (h : a < b) : ¬ b ≤ a := by
  obtain ⟨ha, hb⟩ := isNaN_of_lt h
  rw [lt_iff_steps ha hb] at h
  rw [le_iff_steps hb ha]
  omega

theorem lt_asymm (h : a < b) : ¬ b < a := by
  obtain ⟨ha, hb⟩ := isNaN_of_lt h
  rw [lt_iff_steps ha hb] at h
  rw [lt_iff_steps hb ha]
  omega

theorem lt_trans {c : Float} (h : a < b) (h' : b < c) : a < c := by
  obtain ⟨ha, hb⟩ := isNaN_of_lt h
  have hc := (isNaN_of_lt h').2
  rw [lt_iff_steps ha hb] at h
  rw [lt_iff_steps hb hc] at h'
  rw [lt_iff_steps ha hc]
  omega

end

/-! ### Signs and magnitudes -/

private theorem isNaN_zero : Float.isNaN 0.0 = false := rfl

section
variable {v : Float}

theorem lt_zero_iff (h : v.isNaN = false) : v < 0.0 ↔ steps v < 0 :=
  lt_iff_steps h isNaN_zero

theorem zero_lt_iff (h : v.isNaN = false) : 0.0 < v ↔ 0 < steps v :=
  lt_iff_steps isNaN_zero h

theorem beq_zero_iff (h : v.isNaN = false) : (v == 0.0) = true ↔ steps v = 0 :=
  beq_iff_steps h isNaN_zero

theorem isPositiveFinite_iff : isPositiveFinite v = true ↔ v.isFinite = true ∧ 0.0 < v := by
  rw [isPositiveFinite, Bool.and_eq_true, decide_eq_true_iff]

/-- The sign bit tells on which side of zero a number is. -/
theorem signBit_cases (h : v.isNaN = false) :
    signBit v = true ∧ steps v ≤ 0 ∨ signBit v = false ∧ 0 ≤ steps v := by
  have hsteps : ∃ n : Nat, steps v = (sign v).apply n := by
    rcases unpack_of_number h with ⟨n, -, -, -, hn⟩ | ⟨-, hn⟩
    · exact ⟨n, hn⟩
    · exact ⟨stepLimit, hn⟩
  obtain ⟨n, hn⟩ := hsteps
  cases hs : signBit v with
  | true =>
    have hsign : sign v = .negative := if_pos hs
    rw [hsign, Sign.apply] at hn
    exact .inl ⟨rfl, by omega⟩
  | false =>
    have hsign : sign v = .positive := if_neg (by rw [hs]; exact Bool.false_ne_true)
    rw [hsign, Sign.apply] at hn
    exact .inr ⟨rfl, by omega⟩

/-- The absolute value has the magnitude as its number of steps. -/
theorem steps_abs (h : v.isNaN = false) : v.abs.isNaN = false ∧ steps v.abs = (steps v).natAbs := by
  have hunpack : v.abs.toModel.unpack =
      UnpackedFloat.unpack .binary64 (UnpackedFloat.pack .binary64 v.toModel.unpack.abs) := rfl
  have habs {n : Nat} (hn : IsShort n) : (ofSteps (sign v) n).abs = ofSteps .positive n := by
    rcases ofSteps_cases (sign v) hn with ⟨rfl, hs⟩ | ⟨m, p, hm, hlt, hp, rfl, hs⟩
    · rw [hs]
      rfl
    · rw [hs, ofSteps_mul_two_pow .positive hm hlt hp]
      rfl
  rcases unpack_of_number h with ⟨n, hn, hlt, hu, hs⟩ | ⟨hu, hs⟩
  · rw [hu, habs hn, unpack_pack_ofSteps .positive hn, if_pos hlt] at hunpack
    refine ⟨isNaN_of_isFinite (isFinite_of_ofSteps hn hunpack), ?_⟩
    rw [steps_of_ofSteps hn hunpack, hs, natAbs_apply, Int.natAbs_natCast]
    rfl
  · have hinf : v.abs.toModel.unpack = .infinity .positive := by
      rw [hunpack, hu]
      cases sign v <;> rfl
    have hnan : v.abs.isNaN = v.abs.toModel.unpack.isNaN := rfl
    refine ⟨?_, ?_⟩
    · rw [hnan, hinf]
      rfl
    · rw [steps, hinf, hs, natAbs_apply, Int.natAbs_natCast]
      rfl

end

/-! ### Quotients and products of positive doubles -/

/-- A double above zero has a mantissa, and its bits end at the least exponent if there are fewer than 53. -/
theorem unpack_of_pos {v : Float} (h : v.isFinite = true) (hpos : 0.0 < v) :
    ∃ (m p : Nat) (hm : 0 < m), m < 2 ^ 53 ∧ (2 ^ 52 ≤ m ∨ p = 0) ∧ steps v = (m * 2 ^ p : Nat) ∧
      v.toModel.unpack = .finite .positive m ((p : Int) - 1074) hm := by
  obtain ⟨n, hn, -, hu, hs⟩ := unpack_of_isFinite h
  rw [zero_lt_iff (isNaN_of_isFinite h), hs] at hpos
  have hsign : sign v = .positive := by
    cases hsign : sign v with
    | negative =>
      rw [hsign, Sign.apply] at hpos
      omega
    | positive => rfl
  rw [hsign] at hu hs hpos
  rcases ofSteps_cases .positive hn with ⟨rfl, -⟩ | ⟨m, p, hm, hlt, hp, rfl, hsteps⟩
  · exact absurd hpos (Int.lt_irrefl 0)
  · exact ⟨m, p, hm, hlt, hp, hs, hu.trans hsteps⟩

private theorem nonneg_of_unpack_eq {v : Float} {m : Nat} {e : Int} {accuracy : Accuracy}
    (h : v.toModel.unpack = UnpackedFloat.unpack .binary64 (UnpackedFloat.pack .binary64
      (roundWithAccuracy .binary64 .positive m e accuracy))) : v.isNaN = false ∧ 0 ≤ steps v := by
  have hnan : v.isNaN = v.toModel.unpack.isNaN := rfl
  rcases unpack_pack_roundWithAccuracy .positive m e accuracy with ⟨k, hk, hround⟩ | hround
  · rw [hround] at h
    refine ⟨isNaN_of_isFinite (isFinite_of_ofSteps hk h), ?_⟩
    rw [steps_of_ofSteps hk h]
    exact Int.natCast_nonneg k
  · rw [hround] at h
    refine ⟨by rw [hnan, h]; rfl, ?_⟩
    rw [steps, h]
    exact Int.natCast_nonneg stepLimit

section
variable {a b : Float}

/-- The quotient of positive doubles is a number, and it is not negative. -/
theorem div_of_pos (ha : a.isFinite = true) (hb : b.isFinite = true) (hapos : 0.0 < a)
    (hbpos : 0.0 < b) : (a / b).isNaN = false ∧ 0 ≤ steps (a / b) := by
  obtain ⟨m, p, hm, -, -, -, hu⟩ := unpack_of_pos ha hapos
  obtain ⟨n, q, hn, -, -, -, hv⟩ := unpack_of_pos hb hbpos
  have hdiv : (a / b).toModel.unpack = UnpackedFloat.unpack .binary64 (UnpackedFloat.pack .binary64
      (UnpackedFloat.div .binary64 a.toModel.unpack b.toModel.unpack)) := rfl
  rw [hu, hv, div_finite] at hdiv
  exact nonneg_of_unpack_eq hdiv

/-- The product of positive doubles is a number, and it is not negative. -/
theorem mul_of_pos (ha : a.isFinite = true) (hb : b.isFinite = true) (hapos : 0.0 < a)
    (hbpos : 0.0 < b) : (a * b).isNaN = false ∧ 0 ≤ steps (a * b) := by
  obtain ⟨m, p, hm, -, -, -, hu⟩ := unpack_of_pos ha hapos
  obtain ⟨n, q, hn, -, -, -, hv⟩ := unpack_of_pos hb hbpos
  have hmul : (a * b).toModel.unpack = UnpackedFloat.unpack .binary64 (UnpackedFloat.pack .binary64
      (UnpackedFloat.mul .binary64 a.toModel.unpack b.toModel.unpack)) := rfl
  rw [hu, hv] at hmul
  exact nonneg_of_unpack_eq hmul

end
end FormulaRoots.Binary64
