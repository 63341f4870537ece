import FormulaRoots.Proofs.Binary64.Magnitude
import FormulaRoots.Proofs.Solver.Failures

/-! Settings in use. A setter that fails leaves the settings before it in force, so what is in force is what was
accepted last, whichever setters were called; and with such settings no solver refuses its tolerance or its
number of steps. -/
namespace FormulaRoots
open Binary64 Sampler

private theorem foldl_eq_getLastD {α β γ : Type} (next : α → β → α) (get : α → γ) (set? : β → Option γ)
    (hnext : ∀ a b, get (next a b) = (set? b).getD (get a)) (a : α) (updates : List β) :
    get (updates.foldl next a) = (updates.filterMap set?).getLastD (get a) := by
  induction updates generalizing a with
  | nil => rfl
  | cons b updates ih =>
    rw [List.foldl_cons, ih, hnext, List.filterMap_cons]
    cases set? b with
    | none => rfl
    | some c => rw [Option.getD_some, List.getLastD_cons]

private theorem of_getLastD {β γ : Type} {P : γ → Prop} {set? : β → Option γ} {start : γ}
    (hstart : P start) (hset : ∀ b c, set? b = some c → P c) (updates : List β) :
    P ((updates.filterMap set?).getLastD start) := by
  have hall : ∀ c ∈ start :: updates.filterMap set?, P c := by
    refine List.forall_mem_cons.mpr ⟨hstart, fun c hc => ?_⟩
    obtain ⟨b, -, hb⟩ := List.mem_filterMap.mp hc
    exact hset b c hb
  exact hall _ List.getLastD_mem_cons

/-! ### Setters -/

/-- A tolerance is accepted as it is, or refused with the error that names it. -/
theorem Tolerance.ofFloat_cases (v : Float) :
    (isPositiveFinite v = true ∧ ∃ tolerance, ofFloat v = .ok tolerance ∧ tolerance.value = v) ∨
      isPositiveFinite v = false ∧ ofFloat v = .error (.invalidTolerance v) := by
  by_cases h : isPositiveFinite v = true
  · exact .inl ⟨h, ⟨v, h⟩, dif_pos h, rfl⟩
  · exact .inr ⟨Bool.eq_false_iff.mpr h, dif_neg h⟩

namespace BisectionConfig

inductive Setting where
  | tolerance (v : Float)
  | safetyMargin (margin : UInt64)

def Setting.tolerance? : Setting → Option Float
  | tolerance v => Option.guard isPositiveFinite v
  | safetyMargin _ => none

def next (cfg : BisectionConfig) : Setting → BisectionConfig
  | .tolerance v => (cfg.withTolerance v).toOption.getD cfg
  | .safetyMargin margin => cfg.withSafetyMargin margin

def after (cfg : BisectionConfig) (settings : List Setting) : BisectionConfig :=
  settings.foldl next cfg

private theorem tolerance_next (cfg : BisectionConfig) (setting : Setting) :
    (cfg.next setting).tolerance.value = setting.tolerance?.getD cfg.tolerance.value := by
  cases setting with
  | tolerance v =>
    rw [next, withTolerance, Setting.tolerance?]
    rcases Tolerance.ofFloat_cases v with ⟨hv, tolerance, hok, hvalue⟩ | ⟨hv, herror⟩
    · rw [hok, Option.guard_pos hv]
      exact hvalue
    · rw [herror, Option.guard_eq_none_iff.mpr hv]
      rfl
  | safetyMargin margin => rfl

private theorem of_ofTolerance {v : Float} {cfg : BisectionConfig} (h : ofTolerance v = .ok cfg) :
    isPositiveFinite v = true ∧ cfg.tolerance.value = v := by
  rw [ofTolerance] at h
  rcases Tolerance.ofFloat_cases v with ⟨hv, tolerance, hok, hvalue⟩ | ⟨-, herror⟩
  · rw [hok] at h
    cases h
    exact ⟨hv, hvalue⟩
  · rw [herror] at h
    cases h

/-- The tolerance in force is the one that was accepted last. -/
theorem tolerance_after {v : Float} {start : BisectionConfig} (h : ofTolerance v = .ok start)
    (settings : List Setting) : let tol := (start.after settings).tolerance.value
    tol = (settings.filterMap Setting.tolerance?).getLastD v ∧ isPositiveFinite tol = true := by
  intro tol
  obtain ⟨hv, hstart⟩ := of_ofTolerance h
  have htol : tol = (settings.filterMap Setting.tolerance?).getLastD v := by
    rw [← hstart]
    exact foldl_eq_getLastD next (fun cfg => cfg.tolerance.value) _ tolerance_next start settings
  refine ⟨htol, ?_⟩
  rw [htol]
  refine of_getLastD (P := fun v => isPositiveFinite v = true) hv (fun setting v hsetting => ?_) settings
  cases setting with
  | tolerance w =>
    obtain ⟨rfl, hw⟩ := Option.guard_eq_some_iff.mp hsetting
    exact hw
  | safetyMargin margin => cases hsetting

end BisectionConfig

namespace FixedPointConfig

inductive Setting where
  | tolerance (v : Float)
  | maxIter (n : Nat)

def Setting.tolerance? : Setting → Option Float
  | tolerance v => Option.guard isPositiveFinite v
  | maxIter _ => none

def Setting.maxIter? : Setting → Option Nat
  | tolerance _ => none
  | maxIter n => if 0 < n then some n else none

def next (cfg : FixedPointConfig) : Setting → FixedPointConfig
  | .tolerance v => (cfg.withTolerance v).toOption.getD cfg
  | .maxIter n => (cfg.withMaxIter n).toOption.getD cfg

def after (cfg : FixedPointConfig) (settings : List Setting) : FixedPointConfig :=
  settings.foldl next cfg

private theorem withMaxIter_cases (cfg : FixedPointConfig) (n : Nat) :
    (0 < n ∧ ∃ cfg', cfg.withMaxIter n = .ok cfg' ∧ cfg'.tolerance = cfg.tolerance ∧ cfg'.maxIter = n) ∨
      n = 0 ∧ cfg.withMaxIter n = .error (.invalidMaxIter n) := by
  rw [withMaxIter]
  rcases Nat.eq_zero_or_pos n with rfl | hn
  · exact .inr ⟨rfl, rfl⟩
  · exact .inl ⟨hn, _, dif_pos hn, rfl, rfl⟩

private theorem settings_next (cfg : FixedPointConfig) (setting : Setting) :
    (cfg.next setting).tolerance.value = setting.tolerance?.getD cfg.tolerance.value ∧
    (cfg.next setting).maxIter = setting.maxIter?.getD cfg.maxIter := by
  cases setting with
  | tolerance v =>
    rw [next, withTolerance, Setting.tolerance?]
    rcases Tolerance.ofFloat_cases v with ⟨hv, tolerance, hok, hvalue⟩ | ⟨hv, herror⟩
    · rw [hok, Option.guard_pos hv]
      exact ⟨hvalue, rfl⟩
    · rw [herror, Option.guard_eq_none_iff.mpr hv]
      exact ⟨rfl, rfl⟩
  | maxIter n =>
    rw [next, Setting.maxIter?]
    rcases cfg.withMaxIter_cases n with ⟨hn, cfg', hok, htolerance, hmaxIter⟩ | ⟨rfl, herror⟩
    · rw [hok, if_pos hn]
      exact ⟨congrArg Tolerance.value htolerance, hmaxIter⟩
    · rw [herror]
      exact ⟨rfl, rfl⟩

private theorem of_ofTolerance {v : Float} {limit : Nat} {cfg : FixedPointConfig}
    (h : ofTolerance v limit = .ok cfg) :
    (isPositiveFinite v = true ∧ cfg.tolerance.value = v) ∧ 0 < limit ∧ cfg.maxIter = limit := by
  rw [ofTolerance] at h
  rcases Tolerance.ofFloat_cases v with ⟨hv, tolerance, hok, hvalue⟩ | ⟨-, herror⟩
  · rw [hok] at h
    change withMaxIter ⟨tolerance, 1, Nat.one_pos⟩ limit = .ok cfg at h
    rcases withMaxIter_cases ⟨tolerance, 1, Nat.one_pos⟩ limit with
      ⟨hlimit, cfg', hok', htolerance, hmaxIter⟩ | ⟨-, herror⟩
    · rw [hok'] at h
      cases h
      exact ⟨⟨hv, (congrArg Tolerance.value htolerance).trans hvalue⟩, hlimit, hmaxIter⟩
    · rw [herror] at h
      cases h
  · rw [herror] at h
    cases h

/-- The settings in force are those that were accepted last. -/
theorem settings_after {v : Float} {limit : Nat} {start : FixedPointConfig}
    (h : ofTolerance v limit = .ok start) (settings : List Setting) :
    let cfg := start.after settings
    (cfg.tolerance.value = (settings.filterMap Setting.tolerance?).getLastD v ∧
      isPositiveFinite cfg.tolerance.value = true) ∧
    cfg.maxIter = (settings.filterMap Setting.maxIter?).getLastD limit ∧ 0 < cfg.maxIter := by
  intro cfg
  obtain ⟨⟨hv, hstart⟩, hlimit, hstart'⟩ := of_ofTolerance h
  have htol : cfg.tolerance.value = (settings.filterMap Setting.tolerance?).getLastD v := by
    rw [← hstart]
    exact foldl_eq_getLastD next (fun cfg => cfg.tolerance.value) _
      (fun cfg setting => (cfg.settings_next setting).1) start settings
  have hmax : cfg.maxIter = (settings.filterMap Setting.maxIter?).getLastD limit := by
    rw [← hstart']
    exact foldl_eq_getLastD next maxIter _ (fun cfg setting => (cfg.settings_next setting).2) start settings
  refine ⟨⟨htol, ?_⟩, hmax, ?_⟩
  · rw [htol]
    refine of_getLastD (P := fun v => isPositiveFinite v = true) hv (fun setting v hsetting => ?_) settings
    cases setting with
    | tolerance w =>
      obtain ⟨rfl, hw⟩ := Option.guard_eq_some_iff.mp hsetting
      exact hw
    | maxIter n => cases hsetting
  · rw [hmax]
    refine of_getLastD hlimit (fun setting n hsetting => ?_) settings
    cases setting with
    | tolerance v => cases hsetting
    | maxIter m =>
      obtain ⟨hm, hmn⟩ := Option.ite_none_right_eq_some.mp hsetting
      exact Option.some.inj hmn ▸ hm

end FixedPointConfig

/-! ### The cache of a tolerance -/

namespace SampleCache

/-- A hundredth of a tolerance is a rounding step if it is normal; it cannot be negative. -/
theorem isRoundingStep_stepFor_iff (tolerance : Tolerance) :
    isRoundingStep (stepFor tolerance.value) = true ↔ isNormal (tolerance.value * 0.01) = true := by
  rw [isRoundingStep, Bool.and_eq_true, decide_eq_true_iff, stepFor]
  -- the product of two positive doubles may vanish or be infinite, and a normal one has done neither
  refine and_iff_left_of_imp fun hnormal => ?_
  obtain ⟨hnumber, hnonneg⟩ := mul_of_pos (Bisection.tolerance_isFinite tolerance) (by decide +kernel)
    (Bisection.tolerance_pos tolerance) (by decide +kernel : 0.0 < (0.01 : Float))
  rw [zero_lt_iff hnumber]
  have := steps_ne_zero_of_isNormal hnormal
  omega

/-- A tolerance that was accepted is accepted again. -/
theorem create_eq_ofTolerance {σ : Type} (tolerance : Tolerance) (s : σ) :
    create tolerance.value s = ofTolerance tolerance s := by
  rw [create, Tolerance.ofFloat, dif_pos tolerance.value_valid]
  rfl

end SampleCache

/-! ### The solvers -/

/-- The failures of a bisection with the tolerance `tol`, and when it is for the tolerance that it fails. -/
structure Bisection.FailsOnly (bracket : Bracket) (tol : Float)
    (result : Except SolverError (Report BisectionRecord)) : Prop where
  error_cases : ∀ e, result = .error e →
    e = .invalidBounds bracket.left bracket.right ∨ e = .degenerateCacheStep tol (tol * 0.01) ∨
      (∃ fa fb, e = .noSignChange bracket.left bracket.right fa fb) ∨ ∃ cause, e = .arithmetic cause
  degenerate_iff : ∀ t step, result = .error (.degenerateCacheStep t step) ↔
    bracket.isProper = true ∧ ¬ isNormal (tol * 0.01) = true ∧ t = tol ∧ step = tol * 0.01

/-- The failures of a fixed-point iteration with the tolerance `tol`, and when it is for the tolerance that it
fails. -/
structure FixedPoint.FailsOnly (tol : Float) (result : Except SolverError (Report FixedPointRecord)) :
    Prop where
  error_cases : ∀ e, result = .error e →
    e = .degenerateCacheStep tol (tol * 0.01) ∨ ∃ cause, e = .arithmetic cause
  degenerate_iff : ∀ t step, result = .error (.degenerateCacheStep t step) ↔
    ¬ isNormal (tol * 0.01) = true ∧ t = tol ∧ step = tol * 0.01

/-- What is reported of the steps is the last one, and not the start, which stands in where there is no step. -/
def FixedPoint.Course.LastIsRecorded (c : Course) (x0 : Float) : Prop :=
  ∃ r, c.records.getLast? = some r ∧ c.last x0 = (r.current, r.next)

namespace Bisection
variable {σ : Type} {f : Sampler σ} {bracket : Bracket} {cfg : BisectionConfig} {s : σ}

private theorem result_eq_degenerateCacheStep_iff {t step : Float} :
    (bisection f bracket cfg s).1.result = .error (.degenerateCacheStep t step) ↔
      bracket.isProper = true ∧ ¬ isNormal (cfg.tolerance.value * 0.01) = true ∧
        t = cfg.tolerance.value ∧ step = cfg.tolerance.value * 0.01 := by
  rw [← SampleCache.isRoundingStep_stepFor_iff]
  by_cases hb : bracket.isProper = true
  · by_cases hs : isRoundingStep (SampleCache.stepFor cfg.tolerance.value) = true
    · obtain ⟨course, evaluations, hits, -, hresult⟩ := explores_samples (f := f) (s := s) hb hs
      constructor
      · intro h
        rcases course.error_cases (hresult.symm.trans h) with ⟨cause, -, he⟩ | ⟨fa, fb, -, he⟩
        · cases he
        · cases he
      · rintro ⟨-, hno, -⟩
        exact absurd hs hno
    · rw [bisection_of_no_step hb hs]
      constructor
      · intro h
        cases h
        exact ⟨hb, hs, rfl, rfl⟩
      · rintro ⟨-, -, rfl, rfl⟩
        rfl
  · rw [bisection_of_improper hb]
    constructor
    · intro h
      cases h
    · rintro ⟨hproper, -⟩
      exact absurd hproper hb

private theorem failsOnly : FailsOnly bracket cfg.tolerance.value
    (bisection f bracket cfg s).1.result where
  error_cases e h := by
    rcases Bisection.error_cases h with ⟨-, he | ⟨step, rfl⟩⟩ | hcause | ⟨fa, fb, he, -⟩
    · exact .inl he
    · obtain ⟨-, -, -, rfl⟩ := result_eq_degenerateCacheStep_iff.mp h
      exact .inr (.inl rfl)
    · exact .inr (.inr (.inr hcause))
    · exact .inr (.inr (.inl ⟨fa, fb, he⟩))
  degenerate_iff t step := result_eq_degenerateCacheStep_iff

end Bisection

namespace FixedPoint
variable {σ : Type} {g : Sampler σ} {x0 : Float} {cfg : FixedPointConfig} {s : σ}

private theorem failsOnly : FailsOnly cfg.tolerance.value (fixedPoint g x0 cfg s).1.result := by
  have hstep := SampleCache.isRoundingStep_stepFor_iff cfg.tolerance
  by_cases hs : isRoundingStep (SampleCache.stepFor cfg.tolerance.value) = true
  · obtain ⟨hresult, -⟩ := result_and_samples g x0 cfg s hs
    rw [hresult]
    constructor
    case error_cases =>
      intro e h
      obtain ⟨cause, -, he⟩ := Course.result_eq_error_iff.mp h
      exact .inr ⟨cause, he⟩
    case degenerate_iff =>
      intro t step
      constructor
      · intro h
        obtain ⟨cause, -, he⟩ := Course.result_eq_error_iff.mp h
        cases he
      · rintro ⟨hno, -⟩
        exact absurd (hstep.mp hs) hno
  · rw [fixedPoint_of_no_step hs]
    constructor
    case error_cases =>
      intro e h
      cases h
      exact .inl rfl
    case degenerate_iff =>
      intro t step
      constructor
      · intro h
        cases h
        exact ⟨mt hstep.mpr hs, rfl, rfl⟩
      · rintro ⟨-, rfl, rfl⟩
        rfl

private theorem lastIsRecorded_iterate (sample : Sampler σ) (tol : Float) {limit : Nat}
    (hlimit : 0 < limit) (number : Nat) (s : σ) {status : ToleranceStatus}
    (h : (iterate sample tol limit number x0 s).1.ending.status = .ok status) :
    (iterate sample tol limit number x0 s).1.LastIsRecorded x0 := by
  obtain ⟨hcourse, -⟩ :=
    (agree_recorded sample).run (iteration tol limit number x0) s (.start s) rfl trivial
  rw [iterate_eq_run, hcourse, ← iterate_eq_run] at h ⊢
  have hsteps := steps_of_start sample tol limit number x0 s
  have hne := List.ne_nil_of_length_pos (hsteps.length_pos hlimit h)
  have hlast := List.getLast?_eq_some_getLast hne
  refine ⟨_, hlast, ?_⟩
  rw [Course.last, hlast]

private theorem last_of_ok (hlimit : 0 < cfg.maxIter) {report : Report FixedPointRecord}
    (h : (fixedPoint g x0 cfg s).1.result = .ok report) :
    ∃ r, report.trace.getLast? = some r ∧ report.root = r.current ∧ report.fRoot = r.next := by
  obtain ⟨c, hsteps, hreport⟩ := steps_of_ok h
  obtain ⟨r, hlast, hroot, hfRoot, -⟩ := (hsteps.recounts hlimit hreport).last
  exact ⟨r, hlast, hroot, hfRoot⟩

end FixedPoint

/-- Settings that were accepted, and changed by any setters since, are never refused by a solver: the tolerance
is positive and finite, a step is allowed, and the cache that a solver makes of them can fail only where a
hundredth of the tolerance cannot be rounded by. -/
theorem accepted_settings_suffice {σ : Type} (f : Sampler σ) (s : σ) :
    (∀ v start settings, BisectionConfig.ofTolerance v = .ok start →
      let cfg := start.after settings
      let tol := cfg.tolerance.value
      tol = (settings.filterMap BisectionConfig.Setting.tolerance?).getLastD v ∧
      (tol.isFinite = true ∧ 0.0 < tol) ∧
      SampleCache.create tol s = SampleCache.ofTolerance cfg.tolerance s ∧
      ∀ bracket, Bisection.FailsOnly bracket tol (bisection f bracket cfg s).1.result) ∧
    (∀ v limit start settings, FixedPointConfig.ofTolerance v limit = .ok start →
      let cfg := start.after settings
      let tol := cfg.tolerance.value
      (tol = (settings.filterMap FixedPointConfig.Setting.tolerance?).getLastD v ∧
        cfg.maxIter = (settings.filterMap FixedPointConfig.Setting.maxIter?).getLastD limit) ∧
      (tol.isFinite = true ∧ 0.0 < tol ∧ 1 ≤ cfg.maxIter) ∧
      SampleCache.create tol s = SampleCache.ofTolerance cfg.tolerance s ∧
      ∀ x0, let result := (fixedPoint f x0 cfg s).1.result
        FixedPoint.FailsOnly tol result ∧
        (∀ cache status, SampleCache.ofTolerance cfg.tolerance s = .ok cache →
          let course := (FixedPoint.iterate (SampleCache.sample f) tol cfg.maxIter 1 x0 cache).1
          course.ending.status = .ok status → course.LastIsRecorded x0) ∧
        ∀ report, result = .ok report →
          ∃ r, report.trace.getLast? = some r ∧ report.root = r.current ∧ report.fRoot = r.next) := by
  constructor
  · intro v start settings h cfg tol
    obtain ⟨htol, hvalid⟩ := BisectionConfig.tolerance_after h settings
    exact ⟨htol, isPositiveFinite_iff.mp hvalid, SampleCache.create_eq_ofTolerance cfg.tolerance s,
      fun bracket => Bisection.failsOnly⟩
  · intro v limit start settings h cfg tol
    obtain ⟨⟨htol, hvalid⟩, hmax, hpos⟩ := FixedPointConfig.settings_after h settings
    obtain ⟨hfinite, htolpos⟩ := isPositiveFinite_iff.mp hvalid
    refine ⟨⟨htol, hmax⟩, ⟨hfinite, htolpos, hpos⟩, SampleCache.create_eq_ofTolerance cfg.tolerance s,
      fun x0 => ⟨FixedPoint.failsOnly, ?_, ?_⟩⟩
    · intro cache status hcache course hstatus
      exact FixedPoint.lastIsRecorded_iterate (SampleCache.sample f) tol hpos 1 cache hstatus
    · intro report hreport
      exact FixedPoint.last_of_ok hpos hreport

/-- A tolerance that is lowered until it cannot be rounded by, and setters that fail in between. -/
theorem accepted_settings_suffice_lowered :
    let f : Sampler Nat := fun x n => (.ok (x / 2.0), n + 1)
    let start : BisectionConfig := ⟨⟨5.0, by decide +kernel⟩, 10⟩
    let cfg := start.after [.tolerance 1e-306, .tolerance (-1.0), .safetyMargin 0]
    let start' : FixedPointConfig := ⟨⟨5.0, by decide +kernel⟩, 7, by decide⟩
    let cfg' := start'.after [.maxIter 2, .maxIter 0, .tolerance (0.0 / 0.0)]
    let report : Report FixedPointRecord :=
      ⟨8.0, 4.0, 2, 0, .stepSizeReached, .fixedPoint, [⟨1, 16.0, 8.0, 8.0⟩, ⟨2, 8.0, 4.0, 4.0⟩]⟩
    BisectionConfig.ofTolerance 5.0 = .ok start ∧ cfg.tolerance.value = 1e-306 ∧
    (bisection f ⟨-1.0, 1.0⟩ cfg 0).1.result = .error (.degenerateCacheStep 1e-306 (1e-306 * 0.01)) ∧
    FixedPointConfig.ofTolerance 5.0 7 = .ok start' ∧ (cfg'.tolerance.value, cfg'.maxIter) = (5.0, 2) ∧
    (fixedPoint f 16.0 cfg' 0).1.result = .ok report ∧
    ∃ r, report.trace.getLast? = some r ∧ report.root = r.current ∧ report.fRoot = r.next := by
  intro f start cfg start' cfg' report
  have hstart : BisectionConfig.ofTolerance 5.0 = .ok start := ok_of_toOption (by decide +kernel)
  have hstart' : FixedPointConfig.ofTolerance 5.0 7 = .ok start' := ok_of_toOption (by decide +kernel)
  have hreport : (fixedPoint f 16.0 cfg' 0).1.result = .ok report := ok_of_toOption (by decide +kernel)
  obtain ⟨hbisect, hfix⟩ := accepted_settings_suffice f 0
  obtain ⟨hlast, -, -, hfails⟩ :=
    hbisect 5.0 start [.tolerance 1e-306, .tolerance (-1.0), .safetyMargin 0] hstart
  have htol : cfg.tolerance.value = 1e-306 := hlast.trans (by decide +kernel)
  have hresult := ((hfails ⟨-1.0, 1.0⟩).degenerate_iff cfg.tolerance.value (cfg.tolerance.value * 0.01)).mpr
    ⟨by decide +kernel, by decide +kernel, rfl, rfl⟩
  rw [htol] at hresult
  obtain ⟨⟨hlast', hmax⟩, -, -, hends⟩ :=
    hfix 5.0 7 start' [.maxIter 2, .maxIter 0, .tolerance (0.0 / 0.0)] hstart'
  have hsettings : (cfg'.tolerance.value, cfg'.maxIter) = (5.0, 2) :=
    Prod.ext (hlast'.trans (by decide +kernel)) (hmax.trans (by decide))
  exact ⟨hstart, htol, hresult, hstart', hsettings, hreport, (hends 16.0).2.2 report hreport⟩

end FormulaRoots
