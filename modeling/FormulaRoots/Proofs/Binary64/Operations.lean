import FormulaRoots.Proofs.Binary64.Unpacked

/-! Sums, differences, products and quotients of finite unpacked doubles: the exact value, rounded once. -/
namespace FormulaRoots.Binary64
open Float.Model Float.Model.UnpackedFloat

def IsRounded (u : UnpackedFloat) (x : Int) (d : Nat) : Prop :=
  ∃ sign : Sign, sign.apply x.natAbs = x ∧ u = ofSteps sign (roundQuotient x.natAbs d)

@[simp] theorem natAbs_apply (sign : Sign) (x : Int) : (sign.apply x).natAbs = x.natAbs := by
  cases sign with
  | negative => exact Int.natAbs_neg x
  | positive => rfl

theorem neg_apply (sign : Sign) (x : Int) : (-sign).apply x = -sign.apply x := by
  cases sign with
  | negative => exact (Int.neg_neg x).symm
  | positive => rfl

private theorem isRounded_ofSteps {n : Nat} (hn : IsShort n) (sign : Sign) :
    IsRounded (ofSteps sign n) (sign.apply n) 1 := by
  refine ⟨sign, by rw [natAbs_apply, Int.natAbs_natCast], ?_⟩
  have hround := roundQuotient_of_isShort Nat.one_pos hn
  rw [Nat.mul_one] at hround
  rw [natAbs_apply, Int.natAbs_natCast, hround]

private theorem isRounded_normalize (v : Int) (e : Nat) :
    IsRounded (UnpackedFloat.normalize .binary64 v ((e : Int) - 1074) .positive) (v * 2 ^ e) 1 := by
  have habs : (v * 2 ^ e).natAbs = v.natAbs * 2 ^ e := by
    rw [Int.natAbs_mul, Int.natAbs_pow]
    rfl
  refine ⟨signOf v, ?_, ?_⟩
  · rw [habs, signOf]
    split
    · rw [Sign.apply, Int.natCast_mul, ← Int.neg_mul, Int.natCast_pow,
        show -(v.natAbs : Int) = v by omega]
      rfl
    · rw [Sign.apply, Int.natCast_mul, Int.natCast_pow, show (v.natAbs : Int) = v by omega]
      rfl
  · rw [habs, normalize_eq_ofSteps]

private theorem apply_decreaseExponent (sign : Sign) (m p q : Nat) (hq : q ≤ p) :
    sign.apply (decreaseExponent m ((p : Int) - 1074) ((q : Int) - 1074)).1 * 2 ^ q =
      sign.apply ((m * 2 ^ p : Nat) : Int) := by
  have hk : ((p : Int) - 1074 - ((q : Int) - 1074)).toNat = p - q := by omega
  have hmul : (m <<< (p - q)) * 2 ^ q = m * 2 ^ p := by
    rw [Nat.shiftLeft_eq, Nat.mul_assoc, ← Nat.pow_add, Nat.sub_add_cancel hq]
  simp only [decreaseExponent, hk]
  rw [← hmul]
  cases sign with
  | negative =>
    rw [Sign.apply, Sign.apply, Int.neg_mul, Int.natCast_mul, Int.natCast_pow]
    rfl
  | positive =>
    rw [Sign.apply, Sign.apply, Int.natCast_mul, Int.natCast_pow]
    rfl

theorem isRounded_sub (s t : Sign) {m n : Nat} (hm : IsShort m) (hn : IsShort n) :
    IsRounded (UnpackedFloat.sub .binary64 (ofSteps s m) (ofSteps t n)) (s.apply m - t.apply n) 1 := by
  rcases ofSteps_cases s hm with ⟨rfl, hs⟩ | ⟨m₁, p, hm₁, -, -, rfl, hs⟩
  · rcases ofSteps_cases t hn with ⟨rfl, ht⟩ | ⟨n₁, q, hn₁, hlt, hq, rfl, ht⟩
    · rw [hs, ht]
      refine ⟨if s == -t then s else .positive, ?_, ?_⟩
      · cases s <;> cases t <;> rfl
      · cases s <;> cases t <;> rfl
    · have h := isRounded_ofSteps hn (-t)
      rw [neg_apply, ofSteps_mul_two_pow (-t) hn₁ hlt hq] at h
      rw [hs, ht, show s.apply ((0 : Nat) : Int) = 0 by cases s <;> rfl, Int.zero_sub]
      exact h
  · rcases ofSteps_cases t hn with ⟨rfl, ht⟩ | ⟨n₁, q, hn₁, -, -, rfl, ht⟩
    · have h := isRounded_ofSteps hm s
      rw [ht, show t.apply ((0 : Nat) : Int) = 0 by cases t <;> rfl, Int.sub_zero]
      rw [hs] at h ⊢
      exact h
    · rw [hs, ht]
      have hmin : min ((p : Int) - 1074) ((q : Int) - 1074) = ((min p q : Nat) : Int) - 1074 := by omega
      change IsRounded (UnpackedFloat.normalize .binary64 _ (min ((p : Int) - 1074) (q - 1074)) _) _ 1
      rw [hmin]
      have h := isRounded_normalize
        (s.apply (decreaseExponent m₁ ((p : Int) - 1074) (((min p q : Nat) : Int) - 1074)).1 -
          t.apply (decreaseExponent n₁ ((q : Int) - 1074) (((min p q : Nat) : Int) - 1074)).1) (min p q)
      rw [Int.sub_mul, apply_decreaseExponent s m₁ p _ (Nat.min_le_left p q),
        apply_decreaseExponent t n₁ q _ (Nat.min_le_right p q)] at h
      exact h

theorem neg_ofSteps (sign : Sign) (n : Nat) : (ofSteps sign n).neg = ofSteps (-sign) n := by
  unfold ofSteps
  rcases Nat.eq_zero_or_pos (n / 2 ^ (n.log2 - 52)) with h | h
  · rw [h, ofMantissa_zero, ofMantissa_zero]
    rfl
  · rw [ofMantissa_of_pos _ h, ofMantissa_of_pos _ h]
    rfl

/-- A sum is the difference with the negated summand. -/
theorem add_eq_sub_neg (u v : UnpackedFloat) :
    UnpackedFloat.add .binary64 u v = UnpackedFloat.sub .binary64 u v.neg := by
  cases u with
  | notANumber => rfl
  | infinity s =>
    cases v with
    | infinity t => cases s <;> cases t <;> rfl
    | _ => rfl
  | zero s =>
    cases v with
    | notANumber => rfl
    | infinity t => cases t <;> rfl
    | zero t => cases s <;> cases t <;> rfl
    | finite t m e hm => cases t <;> rfl
  | finite s m e hm =>
    cases v with
    | notANumber => rfl
    | infinity t => cases t <;> rfl
    | zero t => rfl
    | finite t n f hn =>
      change UnpackedFloat.normalize .binary64 (s.apply _ + t.apply _) _ _ =
        UnpackedFloat.normalize .binary64 (s.apply _ - (-t).apply _) _ _
      rw [neg_apply, Int.sub_neg]

theorem isRounded_add (s t : Sign) {m n : Nat} (hm : IsShort m) (hn : IsShort n) :
    IsRounded (UnpackedFloat.add .binary64 (ofSteps s m) (ofSteps t n)) (s.apply m + t.apply n) 1 := by
  have h := isRounded_sub s (-t) hm hn
  rw [neg_apply, Int.sub_neg] at h
  rw [add_eq_sub_neg, neg_ofSteps]
  exact h

def two : UnpackedFloat :=
  .finite .positive (2 ^ 52) (-51) (by decide)

/-- The quotient of the mantissas is rounded. -/
theorem div_finite (s t : Sign) {m n : Nat} (hm : 0 < m) (hn : 0 < n) (e f : Int) :
    UnpackedFloat.div .binary64 (.finite s m e hm) (.finite t n f hn) =
      let quotient := divCore .binary64 m e n f
      roundWithAccuracy .binary64 (s / t) quotient.1 quotient.2.1 quotient.2.2 := rfl

/-- The quotient of two mantissas is rounded once, provided that its exponent is not below the least. -/
theorem div_eq_ofSteps (s t : Sign) {m n a : Nat} (hm : 0 < m) (hn : 0 < n) {e f : Int}
    (ha : (a : Int) = e - f + 1074) :
    UnpackedFloat.div .binary64 (.finite s m e hm) (.finite t n f hn) =
      ofSteps (s / t) (roundQuotient (m * 2 ^ a) n) := by
  -- the quotient of the mantissas is formed with the exponent `b` below
  generalize hb : min (a : Int) (max ((m.log2 : Int) - n.log2 - 53 + a) 0) = b'
  obtain ⟨b, rfl⟩ := Int.eq_ofNat_of_zero_le (show 0 ≤ b' by omega)
  have htarget : min (e - f) (Format.binary64.targetExponent (totalExponent m e - totalExponent n f)) =
      (b : Int) - 1074 := by
    rw [targetExponent_binary64, totalExponent, totalExponent]
    omega
  have hshift : (e - f - ((b : Int) - 1074)).toNat = a - b := by omega
  have hcore : divCore .binary64 m e n f =
      (m * 2 ^ (a - b) / n, (b : Int) - 1074, accuracyOfFraction (m * 2 ^ (a - b) % n) n) := by
    unfold divCore
    simp only [htarget, hshift, Nat.shiftLeft_eq]
  have hcond : (b : Int) - 1074 ≤ Format.binary64.targetExponent
      (totalExponent (m * 2 ^ (a - b) / n) ((b : Int) - 1074)) := by
    rw [targetExponent_binary64, totalExponent]
    rcases Nat.eq_zero_or_pos b with rfl | hpos
    · omega
    · have hle : 2 ^ 52 ≤ m * 2 ^ (a - b) / n := by
        rw [Nat.le_div_iff_mul_le hn]
        calc 2 ^ 52 * n ≤ 2 ^ 52 * 2 ^ (n.log2 + 1) :=
              Nat.mul_le_mul_left _ (Nat.le_of_lt Nat.lt_log2_self)
          _ = 2 ^ (n.log2 + 53) := by rw [← Nat.pow_add, Nat.add_comm 52, Nat.add_assoc]
          _ ≤ 2 ^ (m.log2 + (a - b)) := Nat.pow_le_pow_right (by decide) (by omega)
          _ = 2 ^ m.log2 * 2 ^ (a - b) := Nat.pow_add ..
          _ ≤ m * 2 ^ (a - b) := Nat.mul_le_mul_right _ (Nat.log2_self_le (Nat.ne_of_gt hm))
      have hne : m * 2 ^ (a - b) / n ≠ 0 := Nat.ne_of_gt (Nat.lt_of_lt_of_le (by decide) hle)
      have := (Nat.le_log2 hne).mpr hle
      omega
  have hround := roundWithAccuracy_eq_ofSteps (s / t) hn hcond
  rw [Nat.mul_assoc, ← Nat.pow_add, Nat.sub_add_cancel (by omega)] at hround
  rw [div_finite, hcore]
  exact hround

theorem isRounded_div_two (sign : Sign) {n : Nat} (hn : IsShort n) :
    IsRounded (UnpackedFloat.div .binary64 (ofSteps sign n) two) (sign.apply n) 2 := by
  rcases ofSteps_cases sign hn with ⟨rfl, hs⟩ | ⟨m, p, hm, -, -, rfl, hs⟩
  · rw [hs]
    exact ⟨sign, by cases sign <;> rfl, by cases sign <;> rfl⟩
  · refine ⟨sign, by rw [natAbs_apply, Int.natAbs_natCast], ?_⟩
    have hdiv := div_eq_ofSteps sign .positive hm (show 0 < 2 ^ 52 by decide) (a := p + 51)
      (e := (p : Int) - 1074) (f := -51) (by omega)
    have hround : roundQuotient (m * 2 ^ (p + 51)) (2 ^ 52) = roundQuotient (m * 2 ^ p) 2 := by
      rw [Nat.pow_add, ← Nat.mul_assoc]
      exact roundQuotient_mul_right (c := 2 ^ 51) (by decide) (m * 2 ^ p) 2
    rw [hround, show sign / Sign.positive = sign by cases sign <;> rfl] at hdiv
    rw [hs, natAbs_apply, Int.natAbs_natCast]
    exact hdiv

/-- A product of mantissas is rounded once, provided that its exponent is the least or it has 53 bits. -/
theorem mul_eq_ofSteps (s t : Sign) {m n a : Nat} (hm : 0 < m) (hn : 0 < n) {e f : Int}
    (ha : (a : Int) = e + f + 1074) (hbits : a = 0 ∨ 2 ^ 52 ≤ m * n) :
    UnpackedFloat.mul .binary64 (.finite s m e hm) (.finite t n f hn) =
      ofSteps (s * t) (roundQuotient (m * n * 2 ^ a) 1) := by
  have hcond : (a : Int) - 1074 ≤ Format.binary64.targetExponent
      (totalExponent (m * n / 1) ((a : Int) - 1074)) := by
    rw [targetExponent_binary64, totalExponent, Nat.div_one]
    rcases hbits with rfl | hle
    · omega
    · have := (Nat.le_log2 (Nat.ne_of_gt (Nat.mul_pos hm hn))).mpr hle
      omega
  have hround := roundWithAccuracy_eq_ofSteps (s * t) Nat.one_pos hcond
  rw [Nat.div_one, Nat.mod_one, show (a : Int) - 1074 = e + f by omega] at hround
  exact hround

end FormulaRoots.Binary64
