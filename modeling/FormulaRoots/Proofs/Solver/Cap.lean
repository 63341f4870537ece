import FormulaRoots.Proofs.Binary64.Logarithm
import FormulaRoots.Proofs.Memo.Holding
import FormulaRoots.Proofs.Solver.Trace

/-! The cap on the number of halvings. It is moderate as long as the width divided by the tolerance is
finite; where that quotient is infinite the cap is the greatest integer, and a bracket that halving does
not narrow is halved so often. -/
namespace FormulaRoots
open Binary64

private theorem toInt_addSaturating (x y : Int64) :
    (addSaturating x y).toInt = max (-2 ^ 63) (min (x.toInt + y.toInt) (2 ^ 63 - 1)) := by
  have hx := x.le_toInt
  have hx' := x.toInt_lt
  have hy := y.le_toInt
  have hy' := y.toInt_lt
  have hoverflow : BitVec.saddOverflow x.toBitVec y.toBitVec = true ↔
      2 ^ 63 ≤ x.toInt + y.toInt ∨ x.toInt + y.toInt < -2 ^ 63 := by
    rw [BitVec.saddOverflow, Bool.or_eq_true, decide_eq_true_iff, decide_eq_true_iff,
      Int64.toInt_toBitVec, Int64.toInt_toBitVec]
  have hneg : x < 0 ↔ x.toInt < 0 := by
    rw [Int64.lt_iff_toInt_lt, Int64.toInt_zero]
  unfold addSaturating
  by_cases h : BitVec.saddOverflow x.toBitVec y.toBitVec = true
  · rw [if_pos h]
    rw [hoverflow] at h
    by_cases h0 : x < 0
    · rw [if_pos h0, Int64.toInt_minValue]
      rw [hneg] at h0
      omega
    · rw [if_neg h0, Int64.toInt_maxValue]
      rw [hneg] at h0
      omega
  · rw [if_neg h, Int64.toInt_add]
    rw [hoverflow] at h
    rw [Int.bmod_eq_of_le_mul_two (by omega) (by omega)]
    omega

private theorem toInt_clampToInt64 (n : UInt64) :
    (clampToInt64 n).toInt = min (n.toNat : Int) (2 ^ 63 - 1) := by
  have hmax : n ≤ Int64.maxValue.toUInt64 ↔ n.toNat < 2 ^ 63 := by
    rw [UInt64.le_iff_toNat_le]
    exact Nat.lt_succ_iff.symm
  unfold clampToInt64
  by_cases h : n ≤ Int64.maxValue.toUInt64
  · rw [if_pos h]
    rw [hmax] at h
    have hint : n.toInt64.toInt = n.toNat := by
      rw [← Int64.toInt_toBitVec]
      exact BitVec.toInt_eq_toNat_of_lt (show 2 * n.toNat < 2 ^ 64 by omega)
    omega
  · rw [if_neg h, Int64.toInt_maxValue]
    rw [hmax] at h
    omega

/-- The cap is the sum, cut to the numbers from 0 to the greatest integer. -/
theorem toNat_capOf (halvings : Int64) (margin : UInt64) :
    ((capOf halvings margin).toNat : Int) =
      max 0 (min (halvings.toInt + min (margin.toNat : Int) (2 ^ 63 - 1)) (2 ^ 63 - 1)) := by
  have htotal := toInt_addSaturating halvings (clampToInt64 margin)
  rw [toInt_clampToInt64] at htotal
  have hneg (total : Int64) : total < 0 ↔ total.toInt < 0 := by
    rw [Int64.lt_iff_toInt_lt, Int64.toInt_zero]
  have hlow := halvings.le_toInt
  unfold capOf
  generalize addSaturating halvings (clampToInt64 margin) = total at *
  by_cases h : total < 0
  · rw [if_pos h]
    rw [hneg] at h
    have : (0 : UInt64).toNat = 0 := rfl
    omega
  · rw [if_neg h]
    have hnat : (total.toUInt64.toNat : Int) = total.toInt := by
      rw [hneg] at h
      rw [Int64.toNat_toUInt64_of_le (by rw [Int64.le_iff_toInt_le, Int64.toInt_zero]; omega)]
      exact Int.toNat_of_nonneg (by omega)
    rw [hneg] at h
    omega

/-- Nothing wraps around: the cap is what unbounded integers yield, cut to the numbers from 0 to the greatest
integer. So a larger margin lowers no cap, one more adds at most one, and where no number is cut the cap is the
sum. -/
theorem iterationCap_exact {a b tolerance : Float} {h : Int64} (hlog : ceilLog2 ((b - a) / tolerance) = h) :
    let cap (m : UInt64) : Int := (iterationCap a b tolerance m).toNat
    (∀ m, cap m = min (max (h.toInt + min (m.toNat : Int) (2 ^ 63 - 1)) 0) (2 ^ 63 - 1)) ∧
    (∀ m m', m ≤ m' → cap m ≤ cap m') ∧
    (∀ m m', m'.toNat = m.toNat + 1 → cap m' ≤ cap m + 1) ∧
    (∀ m, 0 ≤ cap m ∧ cap m ≤ 2 ^ 63 - 1) ∧
    (∀ m, 0 ≤ h.toInt + m.toNat → h.toInt + m.toNat ≤ 2 ^ 63 - 1 → (m.toNat : Int) ≤ 2 ^ 63 - 1 →
      cap m = h.toInt + m.toNat) := by
  intro cap
  have hcap (m : UInt64) : cap m = max 0 (min (h.toInt + min (m.toNat : Int) (2 ^ 63 - 1)) (2 ^ 63 - 1)) := by
    rw [← hlog]
    exact toNat_capOf _ m
  refine ⟨fun m => ?_, fun m m' hle => ?_, fun m m' hsucc => ?_, fun m => ?_, fun m hlow hhigh hm => ?_⟩
  · rw [hcap]
    omega
  · rw [UInt64.le_iff_toNat_le] at hle
    rw [hcap, hcap]
    omega
  · rw [hcap, hcap]
    omega
  · rw [hcap]
    omega
  · rw [hcap]
    omega

/-- Where the interval has no width, the greatest margin does not make up for the least logarithm; to the
greatest one no margin adds; and between them both add up. -/
theorem iterationCap_exact_extremes :
    ceilLog2 ((1.0 - 1.0) / 0.5) = Int64.minValue ∧
    (iterationCap 1.0 1.0 0.5 18446744073709551615).toNat = 0 ∧
    ceilLog2 ((1e308 - 0.0) / 1e-300) = Int64.maxValue ∧
    (iterationCap 0.0 1e308 1e-300 10).toNat = 2 ^ 63 - 1 ∧
    ceilLog2 ((1.5 - 1.0) / 8.0) = -4 ∧ (iterationCap 1.0 1.5 8.0 10).toNat = 6 := by
  have hleast : ceilLog2 ((1.0 - 1.0) / 0.5) = Int64.minValue := by decide +kernel
  have hgreatest : ceilLog2 ((1e308 - 0.0) / 1e-300) = Int64.maxValue := by decide +kernel
  have hbetween : ceilLog2 ((1.5 - 1.0) / 8.0) = -4 := by decide +kernel
  have hzero := (iterationCap_exact hleast).1 18446744073709551615
  have hcut := (iterationCap_exact hgreatest).1 10
  obtain ⟨-, -, -, -, hsum⟩ := iterationCap_exact hbetween
  have hsix := hsum 10 (by decide) (by decide) (by decide)
  exact ⟨hleast, Int.ofNat_inj.mp hzero, hgreatest, Int.ofNat_inj.mp hcut, hbetween, Int.ofNat_inj.mp hsix⟩

private theorem toNat_iterationCap_le {a b tolerance : Float}
    (h : ((b - a) / tolerance).isFinite = true)
    (margin : UInt64) : (iterationCap a b tolerance margin).toNat ≤ 1024 + margin.toNat := by
  have hcap := toNat_capOf (ceilLog2 ((b - a) / tolerance)) margin
  have hlog := toInt_ceilLog2_le h
  rw [← iterationCap] at hcap
  omega

private theorem toNat_iterationCap_of_not_isFinite {a b tolerance : Float}
    (hnumber : ((b - a) / tolerance).isNaN = false) (hpos : 0 ≤ steps ((b - a) / tolerance))
    (h : ¬ ((b - a) / tolerance).isFinite = true) (margin : UInt64) :
    (iterationCap a b tolerance margin).toNat = 2 ^ 63 - 1 := by
  have hcap := toNat_capOf (ceilLog2 ((b - a) / tolerance)) margin
  rw [← iterationCap, ceilLog2_of_not_isFinite hnumber hpos h, Int64.toInt_maxValue] at hcap
  omega

private theorem Bracket.width_pos_of_isProper {b : Bracket} (h : b.isProper = true) :
    0.0 < b.width := by
  have hfinite := isFinite_of_isProper h
  have hle : ¬ b.right ≤ b.left := by
    simp only [isProper, Bool.and_eq_true, Bool.not_eq_true', decide_eq_false_iff_not] at h
    exact h.1.2
  rw [le_iff_steps (isNaN_of_isFinite hfinite.right) (isNaN_of_isFinite hfinite.left)] at hle
  have hone : rounded 1 1 ≤ rounded (steps b.right - steps b.left) 1 :=
    rounded_mono (by omega) Nat.one_pos
  rw [rounded_of_isShort (isShort_of_lt (by decide)), ← hfinite.steps_width] at hone
  rw [zero_lt_iff (isNaN_of_isFinite hfinite.width)]
  omega

namespace Bisection
variable {σ : Type}

/-- No run takes more samples than the two at the ends and one for each halving that is allowed, or one at
the midpoint of an interval that is narrow from the start. -/
theorem Explores.length_le {bracket : Bracket} {cfg : BisectionConfig} {course : Course}
    {calls : List Sampler.Call} (h : Explores bracket cfg course calls) :
    calls.length ≤ 2 + max 1 (cap bracket cfg).toNat := by
  cases h with
  | leftFailed e => exact Nat.le_add_right_of_le (by decide : 1 ≤ 2)
  | rightFailed fa e => exact Nat.le_add_right 2 _
  | leftSmall fa fb => exact Nat.le_add_right 2 _
  | rightSmall fa fb => exact Nat.le_add_right 2 _
  | noSignChange fa fb => exact Nat.le_add_right 2 _
  | narrow fa fb outcome => exact Nat.add_le_add_left (Nat.le_max_left 1 _) 2
  | halved fa fb d calls left right opposite halvings =>
    have hlength := halvings.length_calls_le
    rw [List.length_cons, List.length_cons]
    omega

private theorem length_samples_le (f : Sampler σ) (bracket : Bracket) (cfg : BisectionConfig) (s : σ) :
    (samples f bracket cfg s).length ≤ 2 + max 1 (cap bracket cfg).toNat := by
  by_cases hb : bracket.isProper = true
  · by_cases hs : isRoundingStep (SampleCache.stepFor cfg.tolerance.value) = true
    · obtain ⟨course, evaluations, hits, hexplores, -⟩ := explores_samples (f := f) (s := s) hb hs
      exact hexplores.length_le
    · simp [samples, hb, SampleCache.ofTolerance_of_no_step hs]
  · simp [samples, hb]

/-- The cap is moderate if and only if the quotient of width and tolerance is finite. Then it bounds the
samples of every function; otherwise it is the greatest integer. -/
theorem cap_le_iff_isFinite (bracket : Bracket) (cfg : BisectionConfig)
    (hb : bracket.isProper = true) (hm : cfg.safetyMargin.toNat ≤ 2 ^ 62) :
    let quotient := (bracket.right - bracket.left) / cfg.tolerance.value
    let cap := iterationCap bracket.left bracket.right cfg.tolerance.value cfg.safetyMargin
    (cap.toNat ≤ 2100 + cfg.safetyMargin.toNat ↔ quotient.isFinite = true) ∧
    (quotient.isFinite = true → ∀ (σ : Type) (f : Sampler σ) (s : σ),
      (samples f bracket cfg s).length ≤ 2 + (2100 + cfg.safetyMargin.toNat)) ∧
    (¬ quotient.isFinite = true → cap.toNat = 2 ^ 63 - 1) := by
  intro quotient cap
  have hfinite := Bracket.isFinite_of_isProper hb
  have htol : cfg.tolerance.value.isFinite = true := by
    have h := cfg.tolerance.value_valid
    rw [isPositiveFinite, Bool.and_eq_true] at h
    exact h.1
  obtain ⟨hnumber, hpos⟩ := div_of_pos hfinite.width htol (Bracket.width_pos_of_isProper hb)
    (tolerance_pos cfg.tolerance)
  have hmoderate (h : quotient.isFinite = true) : cap.toNat ≤ 1024 + cfg.safetyMargin.toNat :=
    toNat_iterationCap_le h cfg.safetyMargin
  have hgreatest (h : ¬ quotient.isFinite = true) : cap.toNat = 2 ^ 63 - 1 :=
    toNat_iterationCap_of_not_isFinite hnumber hpos h cfg.safetyMargin
  refine ⟨⟨fun hle => ?_, fun h => ?_⟩, fun h σ f s => ?_, hgreatest⟩
  · by_cases h : quotient.isFinite = true
    · exact h
    · have := hgreatest h
      omega
  · have := hmoderate h
    omega
  · have hlength := length_samples_le f bracket cfg s
    have := hmoderate h
    change _ ≤ 2 + max 1 cap.toNat at hlength
    omega

/-- The interval from 1 to 2 with a tolerance of a millionth. -/
theorem cap_le_iff_isFinite_millionth :
    let cfg : BisectionConfig := ⟨⟨1e-6, by decide +kernel⟩, 10⟩
    let bracket : Bracket := ⟨1.0, 2.0⟩
    bracket.isProper = true ∧ cfg.safetyMargin.toNat ≤ 2 ^ 62 ∧
    ((bracket.right - bracket.left) / cfg.tolerance.value).isFinite = true ∧
    (iterationCap bracket.left bracket.right cfg.tolerance.value cfg.safetyMargin).toNat ≤ 2100 + 10 ∧
    ∀ (σ : Type) (f : Sampler σ) (s : σ), (samples f bracket cfg s).length ≤ 2 + (2100 + 10) := by
  intro cfg bracket
  have hb : bracket.isProper = true := by decide +kernel
  have hm : cfg.safetyMargin.toNat ≤ 2 ^ 62 := by decide
  have hfinite : ((bracket.right - bracket.left) / cfg.tolerance.value).isFinite = true := by
    decide +kernel
  obtain ⟨hiff, hsamples, -⟩ := cap_le_iff_isFinite bracket cfg hb hm
  exact ⟨hb, hm, hfinite, hiff.mpr hfinite, hsamples hfinite⟩

/-- A bracket that is wide and whose midpoint is its left end is halved as often as is allowed. -/
theorem descend_of_stalled {sample : Sampler σ} {tol v : Float} {bracket : Bracket}
    (hwide : tol < bracket.width) (hmid : bracket.midpoint = bracket.left) (hlarge : ¬ v.abs < tol)
    (hsample : ∀ s, (sample bracket.left s).1 = .ok v) (budget iteration : Nat) (s : σ) :
    (descend sample tol budget iteration bracket v s).1.records.length = budget ∧
      (descend sample tol budget iteration bracket v s).1.ending = .capReached := by
  have hsign : ¬ changesSign v v = true := by
    rw [changesSign_iff]
    exact not_oppositeSigns_self v
  have hhalf : bracket.half v v = bracket := by
    rw [Bracket.half, if_neg hsign, hmid]
  induction budget generalizing iteration s with
  | zero =>
    refine ⟨rfl, ?_⟩
    rw [descend, Descent.stop, if_neg (not_le_of_lt hwide)]
  | succ budget ih =>
    have hv := hsample s
    rw [descend, if_pos hwide, hmid]
    rcases hs : sample bracket.left s with ⟨outcome, s'⟩
    rw [hs] at hv
    obtain rfl : outcome = .ok v := hv
    simp only [if_neg hlarge, hhalf, if_neg hsign]
    exact ⟨congrArg (· + 1) (ih (iteration + 1) s').1, (ih (iteration + 1) s').2⟩

private theorem iterations_of_stalled {f : Sampler σ} {g : Float → Except DivisionByZero Float}
    (hf : ∀ x s, (f x s).1 = g x) {bracket : Bracket} {cfg : BisectionConfig}
    (hb : bracket.isProper = true)
    (hs : isRoundingStep (SampleCache.stepFor cfg.tolerance.value) = true)
    (hwide : cfg.tolerance.value < bracket.width) (hmid : bracket.midpoint = bracket.left)
    {u v : Float} (hopposite : OppositeSigns u v)
    (hu : g (MemoTable.representative (SampleCache.stepFor cfg.tolerance.value) bracket.left) = .ok u)
    (hv : g (MemoTable.representative (SampleCache.stepFor cfg.tolerance.value) bracket.right) = .ok v)
    (hleft : ¬ u.abs < cfg.tolerance.value) (hright : ¬ v.abs < cfg.tolerance.value) (s : σ) :
    ∃ report, (bisection f bracket cfg s).1.result = .ok report ∧
      report.iterations = (cap bracket cfg).toNat ∧ report.status = .toleranceNotReached := by
  obtain ⟨hcourse, -⟩ := (SampleCache.sample_agree_rounded hf
    (SampleCache.stepFor cfg.tolerance.value)).run (exploration bracket cfg)
    (.fresh cfg.tolerance hs s) s ⟨MemoTable.holds_ofStep _ hs g, rfl⟩ trivial
  rw [← explore_eq_run (Sampler.rounded _ f)] at hcourse
  have hsample (x : Float) (s : σ) :
      (Sampler.rounded (SampleCache.stepFor cfg.tolerance.value) f x s).1 =
        g (MemoTable.representative (SampleCache.stepFor cfg.tolerance.value) x) := hf _ s
  generalize Sampler.rounded (SampleCache.stepFor cfg.tolerance.value) f = sample at *
  have hexplore : ∃ d : Descent, (explore sample bracket cfg s).1 = .halved u d ∧
      d.records.length = (cap bracket cfg).toNat ∧ d.ending = .capReached := by
    have hu' := hsample bracket.left s
    have hv' := hsample bracket.right (sample bracket.left s).2
    rw [hu] at hu'
    rw [hv] at hv'
    have hsign : changesSign u v = true := (changesSign_iff u v).mpr hopposite
    unfold explore
    rcases hl : sample bracket.left s with ⟨outcome, s₁⟩
    rw [hl] at hu' hv'
    obtain rfl : outcome = .ok u := hu'
    rcases hr : sample bracket.right s₁ with ⟨outcome, s₂⟩
    rw [hr] at hv'
    obtain rfl : outcome = .ok v := hv'
    simp only [hr, if_neg hleft, if_neg hright, hsign, Bool.not_true, Bool.false_eq_true, if_false,
      if_neg (not_le_of_lt hwide)]
    exact ⟨_, rfl, descend_of_stalled hwide hmid hleft
      (fun s => (hsample bracket.left s).trans hu) _ 1 s₂⟩
  obtain ⟨d, hhalved, hlength, hending⟩ := hexplore
  rw [bisection_of_step hb hs]
  simp only [hcourse, hhalved, Course.result, hending, Ending.status]
  exact ⟨_, rfl, hlength, rfl⟩

/-- Two doubles between which there is no third, and a tolerance so small that the quotient of width and
tolerance is infinite. -/
theorem iterations_exceed_bound :
    let f : Sampler Unit := fun x s => (.ok (if x ≤ 9223372036854775808.0 then -1.0 else 1.0), s)
    let bracket : Bracket := ⟨9223372036854775808.0, 9223372036854777856.0⟩
    let cfg : BisectionConfig := ⟨⟨1e-305, by decide +kernel⟩, 0⟩
    bracket.isProper = true ∧ isRoundingStep (SampleCache.stepFor cfg.tolerance.value) = true ∧
    (iterationCap bracket.left bracket.right cfg.tolerance.value cfg.safetyMargin).toNat
      = 9223372036854775807 ∧
    ∃ report, (bisection f bracket cfg ()).1.result = .ok report ∧
      report.iterations = 9223372036854775807 := by
  intro f bracket cfg
  have hb : bracket.isProper = true := by decide +kernel
  have hs : isRoundingStep (SampleCache.stepFor cfg.tolerance.value) = true := by decide +kernel
  have hcap : (iterationCap bracket.left bracket.right cfg.tolerance.value cfg.safetyMargin).toNat
      = 9223372036854775807 := by decide +kernel
  have hwide : cfg.tolerance.value < bracket.width := by decide +kernel
  have hmid : bracket.midpoint = bracket.left := by decide +kernel
  have hopposite : OppositeSigns (-1.0) 1.0 := by decide +kernel
  obtain ⟨report, hreport, hiterations, -⟩ := iterations_of_stalled (f := f)
    (g := fun x => .ok (if x ≤ 9223372036854775808.0 then -1.0 else 1.0)) (fun _ _ => rfl) hb hs hwide
    hmid hopposite (congrArg Except.ok (by decide +kernel)) (congrArg Except.ok (by decide +kernel))
    (by decide +kernel) (by decide +kernel) ()
  exact ⟨hb, hs, hcap, report, hreport, hiterations.trans hcap⟩

end Bisection
end FormulaRoots
