import FormulaRoots.Decimal.Shortest
import FormulaRoots.Proofs.Binary64.Magnitude
import FormulaRoots.Proofs.Decimal.Rounded

/-! The digits by which a double is written are rounded to it: those that are chosen lie in the interval around
it, and all its digits are the double itself. -/
namespace FormulaRoots
open Binary64

namespace Binary64

private theorem mul_le_mul_iff_of_scale {a b a' b' c c' : Nat} (hc : 0 < c) (hc' : 0 < c')
    (ha : a * c = a' * c')
    (hb : b * c = b' * c') (i j : Nat) : i * a ≤ j * b ↔ i * a' ≤ j * b' := by
  rw [← Nat.mul_le_mul_right_iff hc, Nat.mul_assoc, Nat.mul_assoc, ha, hb, ← Nat.mul_assoc,
    ← Nat.mul_assoc, Nat.mul_le_mul_right_iff hc']

namespace Dyadic

/-- How many quarters of a unit the reals that are rounded to `x` reach below it. -/
def reachBelow (x : Dyadic) : Nat :=
  if x.narrowBelow then 1 else 2

variable {x : Dyadic} {p n : Nat} {t : Int}

private theorem reachBelow_le (x : Dyadic) : x.reachBelow ≤ 2 := by
  rw [reachBelow]
  split <;> decide

private theorem le_of_admits (h : x.admits t n = true) :
    let num := (x.unitOn t).1
    let den := (x.unitOn t).2
    (4 * x.significand - x.reachBelow) * num ≤ 4 * (n * den) ∧ 4 * (n * den) ≤ (4 * x.significand + 2) * num ∧
    (x.significand % 2 = 1 →
      (4 * x.significand - x.reachBelow) * num < 4 * (n * den) ∧ 4 * (n * den) < (4 * x.significand + 2) * num) := by
  intro num den
  simp only [admits] at h
  rw [Nat.mul_assoc] at h
  split at h
  · simp only [Bool.and_eq_true, decide_eq_true_eq] at h
    exact ⟨h.1, h.2, by omega⟩
  · simp only [Bool.and_eq_true, decide_eq_true_eq] at h
    exact ⟨Nat.le_of_lt h.1, Nat.le_of_lt h.2, fun _ => h⟩

private theorem IsDouble.rounded_of_admits (hx : x.IsDouble p) (h : x.admits t n = true) :
    (⟨n, t⟩ : Decimal).rounded = x.significand * 2 ^ p := by
  -- both sides are measured in steps, and the powers of two below the point are cleared
  have hscale : 0 < 2 ^ (-x.exponent).toNat := Nat.two_pow_pos _
  have hnumber : n * 10 ^ t.toNat * unit * 2 ^ (-x.exponent).toNat = n * (x.unitOn t).2 * unit := by
    simp only [unitOn, Nat.pow_eq]
    rw [Nat.mul_right_comm _ unit, Nat.mul_assoc n, Nat.mul_comm (10 ^ _)]
  have hunit : 10 ^ (-t).toNat * 2 ^ p * 2 ^ (-x.exponent).toNat = (x.unitOn t).1 * unit := by
    have hexponent : 2 ^ p * 2 ^ (-x.exponent).toNat = 2 ^ x.exponent.toNat * unit := by
      rw [two_pow_mul_unit, ← Nat.pow_add, hx.exponent_eq]
      congr 1
      omega
    simp only [unitOn, Nat.pow_eq]
    rw [Nat.mul_assoc, hexponent, Nat.mul_left_comm, Nat.mul_assoc]
  have hle := mul_le_mul_iff_of_scale hscale unit_pos hunit hnumber
  have hge := mul_le_mul_iff_of_scale hscale unit_pos hnumber hunit
  obtain ⟨hlow, hhigh, hodd⟩ := le_of_admits h
  simp only [← Nat.not_le, ← hle, ← hge] at hlow hhigh hodd
  refine roundQuotient_of_quarters (Nat.pow_pos (by decide)) hx.lt hx.normal x.reachBelow_le
    (fun hm hp => Nat.le_of_eq (if_pos (hx.narrow_iff.mpr ⟨hm, hp⟩))) hlow hhigh fun h => ?_
  simpa only [Nat.not_le] using hodd h

private theorem admits_of_onGrid? (h : x.onGrid? t = some n) : x.admits t n = true := by
  simp only [onGrid?] at h
  split at h
  · rename_i hlow hhigh
    split at h
    · cases h
      exact hlow
    · cases h
      exact hhigh
  · rename_i hlow hhigh
    cases h
    exact hlow
  · rename_i hlow hhigh
    cases h
    exact hhigh
  · cases h

private theorem IsDouble.rounded_expansion (hx : x.IsDouble p) :
    x.expansion.rounded = x.significand * 2 ^ p := by
  have hsteps : x.expansion.digits * 10 ^ x.expansion.exponent.toNat * unit =
      x.significand * 2 ^ p * 10 ^ (-x.expansion.exponent).toNat := by
    have hpow : 2 ^ x.exponent.toNat * unit = 2 ^ p * 2 ^ (-x.exponent).toNat := by
      rw [two_pow_mul_unit, ← Nat.pow_add, hx.exponent_eq]
      congr 1
      omega
    simp only [expansion, Nat.pow_eq]
    rw [show (min x.exponent 0).toNat = 0 by omega, show (-min x.exponent 0).toNat = (-x.exponent).toNat by omega,
      Nat.pow_zero, Nat.mul_one, Nat.mul_right_comm, Nat.mul_assoc x.significand, hpow, ← Nat.mul_assoc,
      Nat.mul_assoc, ← Nat.mul_pow]
  rw [Decimal.rounded, hsteps]
  exact roundQuotient_of_isShort (Nat.pow_pos (by decide)) ⟨_, p, hx.lt, rfl⟩

/-- The number that is chosen for a double is rounded to it. -/
theorem IsDouble.rounded_shortest (hx : x.IsDouble p) : x.shortest.rounded = x.significand * 2 ^ p := by
  unfold shortest
  by_cases h0 : x.significand = 0
  · rw [if_pos h0, h0, Nat.zero_mul]
    exact Decimal.rounded_of_digits_eq_zero rfl
  · rw [if_neg h0]
    dsimp only
    generalize hfound : List.findSome? _ _ = found
    cases found with
    | none => exact hx.rounded_expansion
    | some d =>
      obtain ⟨i, -, hi⟩ := List.exists_of_findSome?_eq_some hfound
      obtain ⟨n, hn, rfl⟩ := Option.map_eq_some_iff.mp hi
      exact hx.rounded_of_admits (admits_of_onGrid? hn)

end Dyadic
end Binary64

/-- What is rounded as the number that is chosen for a double without a sign has that double. -/
theorem Decimal.toFloat_of_rounded_eq {v : Float} (hfinite : v.isFinite = true) (hsign : signBit v = false)
    {d : Decimal} (hd : d.rounded = (magnitude v).shortest.rounded) : d.toFloat = v := by
  obtain ⟨p, hx, hpack⟩ := exists_pack_magnitude hfinite
  rw [hx.rounded_shortest] at hd
  rw [toFloat_eq_nearestDouble]
  exact nearestDouble_eq hsign hpack hd

end FormulaRoots
