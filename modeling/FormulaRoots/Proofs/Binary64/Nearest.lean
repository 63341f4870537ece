import Mathlib.Algebra.Group.Int.Defs
import Mathlib.Algebra.Group.Nat.Defs

/-! Rounding of a quotient of natural numbers, to an integer and to 53 significant bits. Both keep the
order of quotients, and a number that has the form already is left as it is. -/
namespace FormulaRoots.Binary64

/-- The integer nearest to `n / d`, a half going to the even neighbour. -/
def nearest (n d : Nat) : Nat :=
  if 2 * (n % d) < d then n / d
  else if 2 * (n % d) = d then n / d + n / d % 2
  else n / d + 1

private theorem le_nearest (n d : Nat) : n / d ≤ nearest n d := by
  unfold nearest
  split
  · exact Nat.le_refl _
  · split <;> omega

private theorem nearest_le (n d : Nat) : nearest n d ≤ n / d + 1 := by
  unfold nearest
  split
  · omega
  · split <;> omega

/-- Only the quotient matters. -/
theorem nearest_mul_right {c : Nat} (hc : 0 < c) (n d : Nat) :
    nearest (n * c) (d * c) = nearest n d := by
  unfold nearest
  rw [Nat.mul_div_mul_right _ _ hc, Nat.mul_mod_mul_right, ← Nat.mul_assoc]
  simp only [Nat.mul_lt_mul_right hc, Nat.mul_left_inj (Nat.ne_of_gt hc)]

private theorem nearest_of_multiple {d : Nat} (hd : 0 < d) (q : Nat) : nearest (q * d) d = q := by
  unfold nearest
  rw [Nat.mul_mod_left, Nat.mul_div_left q hd, if_pos (by omega)]

private theorem nearest_zero (d : Nat) : nearest 0 d = 0 := by
  unfold nearest
  rw [Nat.zero_mod, Nat.zero_div]
  split
  · rfl
  · exact if_pos (by omega)

private theorem nearest_le_nearest_of_le {m n : Nat} (d : Nat) (h : m ≤ n) :
    nearest m d ≤ nearest n d := by
  rcases Nat.lt_or_eq_of_le (Nat.div_le_div_right (c := d) h) with hq | hq
  · exact Nat.le_trans (nearest_le m d) (Nat.le_trans (Nat.succ_le_of_lt hq) (le_nearest n d))
  · -- with equal integer parts the remainders decide
    have hm := Nat.div_add_mod m d
    have hn := Nat.div_add_mod n d
    rw [hq] at hm
    unfold nearest
    rw [hq]
    repeat' split
    all_goals omega

theorem nearest_mono {n d n' d' : Nat} (hd : 0 < d) (hd' : 0 < d') (h : n * d' ≤ n' * d) :
    nearest n d ≤ nearest n' d' := by
  rw [← nearest_mul_right hd' n d, ← nearest_mul_right hd n' d', Nat.mul_comm d' d]
  exact nearest_le_nearest_of_le _ h

/-- The place of the last of 53 significant bits of `n / d`, as an exponent of two; the bits end at the
units. -/
def lastPlace (n d : Nat) : Nat :=
  (n / d).log2 - 52

private theorem lastPlace_mul_right {c : Nat} (hc : 0 < c) (n d : Nat) :
    lastPlace (n * c) (d * c) = lastPlace n d := by
  unfold lastPlace
  rw [Nat.mul_div_mul_right _ _ hc]

private theorem div_lastPlace_lt (n d : Nat) : n / d / 2 ^ lastPlace n d < 2 ^ 53 := by
  rw [Nat.div_lt_iff_lt_mul (Nat.two_pow_pos _), ← Nat.pow_add]
  refine Nat.lt_of_lt_of_le (Nat.lt_log2_self (n := n / d)) (Nat.pow_le_pow_right (by decide) ?_)
  unfold lastPlace
  omega

private theorem le_div_lastPlace {n d : Nat} (h : 0 < lastPlace n d) :
    2 ^ 52 ≤ n / d / 2 ^ lastPlace n d := by
  unfold lastPlace at h ⊢
  have hq : n / d ≠ 0 := by
    intro hq
    rw [hq] at h
    exact absurd h (by decide)
  rw [Nat.le_div_iff_mul_le (Nat.two_pow_pos _), ← Nat.pow_add]
  refine Nat.le_trans (Nat.pow_le_pow_right (by decide) ?_) (Nat.log2_self_le hq)
  omega

def roundQuotient (n d : Nat) : Nat :=
  nearest n (d * 2 ^ lastPlace n d) * 2 ^ lastPlace n d

theorem roundQuotient_zero (d : Nat) : roundQuotient 0 d = 0 := by
  rw [roundQuotient, nearest_zero, Nat.zero_mul]

theorem roundQuotient_mul_right {c : Nat} (hc : 0 < c) (n d : Nat) :
    roundQuotient (n * c) (d * c) = roundQuotient n d := by
  unfold roundQuotient
  rw [lastPlace_mul_right hc, Nat.mul_right_comm, nearest_mul_right hc]

/-- Equal quotients are rounded alike. -/
theorem roundQuotient_congr {n d n' d' : Nat} (hd : 0 < d) (hd' : 0 < d') (h : n * d' = n' * d) :
    roundQuotient n d = roundQuotient n' d' := by
  rw [← roundQuotient_mul_right hd' n d, ← roundQuotient_mul_right hd n' d', h, Nat.mul_comm d]

theorem nearest_lastPlace_le (n d : Nat) : nearest n (d * 2 ^ lastPlace n d) ≤ 2 ^ 53 := by
  have h := nearest_le n (d * 2 ^ lastPlace n d)
  rw [← Nat.div_div_eq_div_mul] at h
  have := div_lastPlace_lt n d
  omega

theorem le_nearest_lastPlace {n d : Nat} (h : 0 < lastPlace n d) :
    2 ^ 52 ≤ nearest n (d * 2 ^ lastPlace n d) := by
  refine Nat.le_trans (le_div_lastPlace h) ?_
  rw [Nat.div_div_eq_div_mul]
  exact le_nearest _ _

theorem roundQuotient_mono {n d n' d' : Nat} (hd : 0 < d) (hd' : 0 < d') (h : n * d' ≤ n' * d) :
    roundQuotient n d ≤ roundQuotient n' d' := by
  have hq : n / d ≤ n' / d' := by
    rw [Nat.le_div_iff_mul_le hd']
    refine Nat.le_of_mul_le_mul_right (Nat.le_trans ?_ h) hd
    calc n / d * d' * d = n / d * d * d' := Nat.mul_right_comm ..
      _ ≤ n * d' := Nat.mul_le_mul_right _ (Nat.div_mul_le_self n d)
  have hp : lastPlace n d ≤ lastPlace n' d' := by
    unfold lastPlace
    by_cases h0 : n / d = 0
    · rw [h0]
      exact Nat.zero_le _
    · have h0' : n' / d' ≠ 0 := Nat.ne_of_gt (Nat.lt_of_lt_of_le (Nat.pos_of_ne_zero h0) hq)
      have := (Nat.le_log2 h0').mpr (Nat.le_trans (Nat.log2_self_le h0) hq)
      omega
  unfold roundQuotient
  rcases Nat.lt_or_eq_of_le hp with hlt | heq
  · -- a power of two lies between
    calc nearest n (d * 2 ^ lastPlace n d) * 2 ^ lastPlace n d
        ≤ 2 ^ 53 * 2 ^ lastPlace n d := Nat.mul_le_mul_right _ (nearest_lastPlace_le n d)
      _ = 2 ^ (53 + lastPlace n d) := (Nat.pow_add ..).symm
      _ ≤ 2 ^ (52 + lastPlace n' d') := Nat.pow_le_pow_right (by decide) (by omega)
      _ = 2 ^ 52 * 2 ^ lastPlace n' d' := Nat.pow_add ..
      _ ≤ nearest n' (d' * 2 ^ lastPlace n' d') * 2 ^ lastPlace n' d' :=
        Nat.mul_le_mul_right _ (le_nearest_lastPlace (by omega))
  · rw [heq]
    refine Nat.mul_le_mul_right _ (nearest_mono (Nat.mul_pos hd (Nat.two_pow_pos _))
      (Nat.mul_pos hd' (Nat.two_pow_pos _)) ?_)
    rw [← Nat.mul_assoc, ← Nat.mul_assoc]
    exact Nat.mul_le_mul_right _ h

theorem log2_le_of_lt {m : Nat} (hm : m < 2 ^ 53) : m.log2 ≤ 52 := by
  by_cases h0 : m = 0
  · rw [h0]
    decide
  · exact Nat.le_of_lt_succ ((Nat.log2_lt h0).mpr hm)

def IsShort (n : Nat) : Prop :=
  ∃ m k, m < 2 ^ 53 ∧ n = m * 2 ^ k

/-- Of two numbers in normal form the one with the smaller exponent is the smaller one. -/
theorem mul_two_pow_lt_mul_two_pow {m n p q : Nat} (hm : m < 2 ^ 53) (hn : 2 ^ 52 ≤ n ∨ q = 0)
    (h : p < q) : m * 2 ^ p < n * 2 ^ q :=
  calc m * 2 ^ p < 2 ^ 53 * 2 ^ p := Nat.mul_lt_mul_of_pos_right hm (Nat.two_pow_pos p)
    _ = 2 ^ 52 * 2 ^ (p + 1) := by
      rw [Nat.pow_succ 2 52, Nat.pow_succ 2 p, Nat.mul_assoc, Nat.mul_comm 2]
    _ ≤ n * 2 ^ q := Nat.mul_le_mul (hn.resolve_right (by omega)) (Nat.pow_le_pow_right (by decide) h)

theorem isShort_of_lt {m : Nat} (hm : m < 2 ^ 53) : IsShort m :=
  ⟨m, 0, hm, by rw [Nat.pow_zero, Nat.mul_one]⟩

private theorem isShort_two_pow (k : Nat) : IsShort (2 ^ k) :=
  ⟨1, k, by decide, (Nat.one_mul _).symm⟩

theorem isShort_roundQuotient (n d : Nat) : IsShort (roundQuotient n d) := by
  rcases Nat.lt_or_eq_of_le (nearest_lastPlace_le n d) with h | h
  · exact ⟨_, _, h, rfl⟩
  · refine ⟨1, 53 + lastPlace n d, by decide, ?_⟩
    rw [roundQuotient, h, Nat.one_mul, Nat.pow_add]

/-- What is short is not changed by rounding. -/
theorem roundQuotient_of_isShort {n d : Nat} (hd : 0 < d) (hn : IsShort n) :
    roundQuotient (n * d) d = n := by
  obtain ⟨m, k, hm, rfl⟩ := hn
  have hp : lastPlace (m * 2 ^ k * d) d ≤ k := by
    unfold lastPlace
    rw [Nat.mul_div_left _ hd]
    by_cases h0 : m * 2 ^ k = 0
    · rw [h0]
      exact Nat.zero_le _
    · have hlt : m * 2 ^ k < 2 ^ (53 + k) := by
        rw [Nat.pow_add]
        exact Nat.mul_lt_mul_of_pos_right hm (Nat.two_pow_pos k)
      have := (Nat.log2_lt h0).mpr hlt
      omega
  unfold roundQuotient
  have hsplit : m * 2 ^ k =
      m * 2 ^ (k - lastPlace (m * 2 ^ k * d) d) * 2 ^ lastPlace (m * 2 ^ k * d) d := by
    rw [Nat.mul_assoc, ← Nat.pow_add, Nat.sub_add_cancel hp]
  generalize lastPlace (m * 2 ^ k * d) d = p at *
  rw [hsplit, Nat.mul_right_comm, Nat.mul_assoc _ d, nearest_of_multiple
    (Nat.mul_pos hd (Nat.two_pow_pos _))]

/-- A half of a rounded number is not above the number. -/
theorem roundQuotient_half_le {n : Nat} (hn : n ≠ 0) : roundQuotient (roundQuotient n 1) 2 ≤ n := by
  -- the next power of two bounds the rounded number, and its half is the power of two below
  have hround : roundQuotient n 1 ≤ 2 ^ (n.log2 + 1) := by
    have hle := roundQuotient_mono Nat.one_pos Nat.one_pos
      (Nat.mul_le_mul_right 1 (Nat.le_of_lt (Nat.lt_log2_self (n := n))))
    have hpow := roundQuotient_of_isShort Nat.one_pos (isShort_two_pow (n.log2 + 1))
    rw [Nat.mul_one] at hpow
    rwa [hpow] at hle
  calc roundQuotient (roundQuotient n 1) 2
      ≤ roundQuotient (2 ^ (n.log2 + 1)) 2 :=
        roundQuotient_mono (by decide) (by decide) (Nat.mul_le_mul_right 2 hround)
    _ = 2 ^ n.log2 := by
      rw [Nat.pow_succ]
      exact roundQuotient_of_isShort (by decide) (isShort_two_pow n.log2)
    _ ≤ n := Nat.log2_self_le hn

/-- A carry out of 53 bits halves the bits and doubles their unit. -/
theorem two_pow_mul_two_pow_succ (p : Nat) : 2 ^ 53 * 2 ^ p = 2 ^ 52 * 2 ^ (p + 1) := by
  rw [← Nat.pow_add, ← Nat.pow_add, show 53 + p = 52 + (p + 1) by omega]

/-- The bits of a short number, 53 of them unless they end at the units. -/
theorem IsShort.exists_normal {n : Nat} (hn : IsShort n) (h0 : n ≠ 0) :
    ∃ m p, 0 < m ∧ m < 2 ^ 53 ∧ (2 ^ 52 ≤ m ∨ p = 0) ∧ n = m * 2 ^ p := by
  have hround := roundQuotient_of_isShort Nat.one_pos hn
  have hle := nearest_lastPlace_le n 1
  have hge := le_nearest_lastPlace (n := n) (d := 1)
  rw [Nat.mul_one, roundQuotient] at hround
  generalize nearest n (1 * 2 ^ lastPlace n 1) = m at *
  generalize lastPlace n 1 = p at *
  rcases Nat.lt_or_eq_of_le hle with hlt | rfl
  · refine ⟨m, p, Nat.pos_of_ne_zero ?_, hlt, (Nat.eq_zero_or_pos p).symm.imp_left hge, hround.symm⟩
    rintro rfl
    exact h0 (hround.symm.trans (Nat.zero_mul _))
  · refine ⟨2 ^ 52, p + 1, by decide, by decide, .inl (Nat.le_refl _), ?_⟩
    rw [← hround, two_pow_mul_two_pow_succ]

private theorem nearest_eq {n d m : Nat} (hd : 0 < d) (hlow : 2 * (m * d) ≤ 2 * n + d)
    (hhigh : 2 * n ≤ 2 * (m * d) + d)
    (hodd : m % 2 = 1 → 2 * (m * d) < 2 * n + d ∧ 2 * n < 2 * (m * d) + d) : nearest n d = m := by
  have hn := Nat.div_add_mod n d
  have hr := Nat.mod_lt n hd
  have hq : n / d = m ∨ n / d + 1 = m := by
    have hle : n / d ≤ m := by
      refine Nat.le_of_not_lt fun hlt => ?_
      have := Nat.mul_le_mul_left d (Nat.succ_le_of_lt hlt)
      rw [Nat.mul_succ, Nat.mul_comm d m] at this
      omega
    have hge : m ≤ n / d + 1 := by
      refine Nat.le_of_not_lt fun hlt => ?_
      have := Nat.mul_le_mul_left d (Nat.succ_le_of_lt hlt)
      rw [Nat.mul_succ, Nat.mul_succ, Nat.mul_comm d m] at this
      omega
    omega
  unfold nearest
  rw [Nat.mul_comm] at hn
  rcases hq with hq | hq
  · rw [hq] at hn ⊢
    repeat' split
    all_goals omega
  · subst hq
    rw [Nat.add_mul, Nat.one_mul] at hlow hhigh hodd
    repeat' split
    all_goals omega

private theorem lastPlace_eq {n d p : Nat} (hd : 0 < d) (hlow : 2 ^ 52 * (d * 2 ^ p) ≤ n ∨ p = 0)
    (hhigh : n < 2 ^ 53 * (d * 2 ^ p)) : lastPlace n d = p := by
  have hlt : n / d < 2 ^ (53 + p) := by
    rw [Nat.div_lt_iff_lt_mul hd, Nat.pow_add, Nat.mul_assoc, Nat.mul_comm (2 ^ p)]
    exact hhigh
  unfold lastPlace
  rcases Nat.eq_zero_or_pos (n / d) with h0 | h0
  · have hp : p = 0 := by
      refine hlow.resolve_left fun hle => ?_
      have hdn : d ≤ n := by
        refine Nat.le_trans (Nat.le_trans ?_ (Nat.le_mul_of_pos_left _ (by decide))) hle
        exact Nat.le_mul_of_pos_right d (Nat.two_pow_pos p)
      exact Nat.ne_of_gt (Nat.div_pos hdn hd) h0
    rw [h0, hp]
    rfl
  · have hlog := (Nat.log2_lt (Nat.ne_of_gt h0)).mpr hlt
    rcases hlow with hlow | rfl
    · have hle : 2 ^ (52 + p) ≤ n / d := by
        rw [Nat.le_div_iff_mul_le hd, Nat.pow_add, Nat.mul_assoc, Nat.mul_comm (2 ^ p)]
        exact hlow
      have := (Nat.le_log2 (Nat.ne_of_gt h0)).mpr hle
      omega
    · omega

/-- What lies within a half of the last place of a number of 53 bits is rounded to it. Below a power of two
the places are half as wide. -/
theorem roundQuotient_eq {n d m p : Nat} (hd : 0 < d) (hm : m < 2 ^ 53) (hp : 2 ^ 52 ≤ m ∨ p = 0)
    (hlow : 2 * (m * (d * 2 ^ p)) ≤ 2 * n + d * 2 ^ p) (hhigh : 2 * n ≤ 2 * (m * (d * 2 ^ p)) + d * 2 ^ p)
    (hodd : m % 2 = 1 → 2 * (m * (d * 2 ^ p)) < 2 * n + d * 2 ^ p ∧ 2 * n < 2 * (m * (d * 2 ^ p)) + d * 2 ^ p)
    (hnarrow : m = 2 ^ 52 → 0 < p → 4 * (m * (d * 2 ^ p)) ≤ 4 * n + d * 2 ^ p) :
    roundQuotient n d = m * 2 ^ p := by
  have hu : 0 < d * 2 ^ p := Nat.mul_pos hd (Nat.two_pow_pos p)
  by_cases hwide : 2 ^ 52 * (d * 2 ^ p) ≤ n ∨ p = 0
  · have hlast := lastPlace_eq hd hwide (by
      have := Nat.mul_le_mul_right (d * 2 ^ p) (Nat.succ_le_of_lt hm)
      rw [Nat.succ_mul] at this
      omega)
    rw [roundQuotient, hlast, nearest_eq hu hlow hhigh hodd]
  · -- below the power of two the last place is one further down
    obtain ⟨hlt, hpos⟩ := not_or.mp hwide
    obtain ⟨k, rfl⟩ := Nat.exists_eq_succ_of_ne_zero hpos
    have hm : m = 2 ^ 52 := by
      refine Nat.le_antisymm (Nat.le_of_not_lt fun hgt => ?_) (hp.resolve_right hpos)
      have := Nat.mul_le_mul_right (d * 2 ^ k.succ) (Nat.succ_le_of_lt hgt)
      rw [Nat.succ_mul] at this
      omega
    subst hm
    have hnarrow := hnarrow rfl k.succ_pos
    have hhalf : d * 2 ^ k.succ = d * 2 ^ k * 2 := by rw [Nat.pow_succ, Nat.mul_assoc]
    rw [hhalf] at hlt hhigh hnarrow
    have hw : 0 < d * 2 ^ k := Nat.mul_pos hd (Nat.two_pow_pos k)
    have hlast : lastPlace n d = k := lastPlace_eq hd (.inl (by omega)) (by omega)
    have hround : nearest n (d * 2 ^ k) = 2 ^ 53 :=
      nearest_eq hw (by omega) (by omega) fun h => absurd h (by decide)
    rw [roundQuotient, hlast, hround, two_pow_mul_two_pow_succ]

/-- What lies no farther from a number of 53 bits than the reals that are rounded to it, measured in quarters
of its last place, is rounded to it. -/
theorem roundQuotient_of_quarters {n d m p reach : Nat} (hd : 0 < d) (hm : m < 2 ^ 53) (hp : 2 ^ 52 ≤ m ∨ p = 0)
    (hreach : reach ≤ 2) (hnarrow : m = 2 ^ 52 → 0 < p → reach ≤ 1)
    (hlow : (4 * m - reach) * (d * 2 ^ p) ≤ 4 * n) (hhigh : 4 * n ≤ (4 * m + 2) * (d * 2 ^ p))
    (hodd : m % 2 = 1 → (4 * m - reach) * (d * 2 ^ p) < 4 * n ∧ 4 * n < (4 * m + 2) * (d * 2 ^ p)) :
    roundQuotient n d = m * 2 ^ p := by
  have hwide := Nat.mul_le_mul_right (d * 2 ^ p) hreach
  rw [Nat.sub_mul, Nat.mul_assoc] at hlow hodd
  rw [Nat.add_mul, Nat.mul_assoc] at hhigh hodd
  refine roundQuotient_eq hd hm hp (by omega) (by omega) ?_ ?_
  · intro h
    have := hodd h
    constructor <;> omega
  · intro h h0
    have := Nat.mul_le_mul_right (d * 2 ^ p) (hnarrow h h0)
    omega

/-- Less than a half is rounded down. -/
theorem roundQuotient_eq_zero {n d : Nat} (h : 2 * n < d) : roundQuotient n d = 0 := by
  have hround := roundQuotient_eq (n := n) (m := 0) (p := 0) (show 0 < d by omega) (by decide) (.inr rfl)
    (by omega) (by omega) (by omega) (by omega)
  rwa [Nat.zero_mul] at hround

end FormulaRoots.Binary64
