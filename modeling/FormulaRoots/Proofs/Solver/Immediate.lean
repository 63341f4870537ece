import FormulaRoots.Proofs.Binary64.Ratio
import FormulaRoots.Proofs.Solver.Cap
import FormulaRoots.Proofs.Solver.Counters

/-! Reports without a trace. They are about an end that is a root or about an interval that is narrow from the
start; an interval that is wider than the tolerance is halved at least once, whatever the margin. -/
namespace FormulaRoots
open Binary64 Sampler

/-- Where the width is above the tolerance, a halving is called for. -/
theorem one_le_iterationCap {a b tolerance : Float} (hwidth : (b - a).isFinite = true)
    (htol : tolerance.isFinite = true) (hpos : 0.0 < tolerance) (hwide : tolerance < b - a) (margin : UInt64) :
    1 ≤ (iterationCap a b tolerance margin).toNat := by
  have hlog := one_le_ceilLog2 (unit_lt_steps_div hwidth htol hpos hwide)
  have hcap := toNat_capOf (ceilLog2 ((b - a) / tolerance)) margin
  rw [← iterationCap] at hcap
  omega

namespace Bisection

private theorem Halvings.records_ne_nil {tol : Float} {budget iteration : Nat} {span : Span}
    {d : Descent}
    {calls : List Call} (h : Halvings tol budget iteration span d calls) (hbudget : 0 < budget)
    (hwide : tol < span.bracket.width) {status : ToleranceStatus} (hs : d.ending.status = .ok status) :
    d.records ≠ [] := by
  cases h with
  | capReached => exact absurd hbudget (Nat.lt_irrefl 0)
  | narrow narrow => exact absurd narrow (not_le_of_lt hwide)
  | failed e => cases hs
  | smallValue fMid => exact List.cons_ne_nil _ _
  | halved fMid => exact List.cons_ne_nil _ _

/-- What is reported without any halving, for the values `fa` and `fb` at the ends, and what is sampled after
the ends. -/
inductive Immediate (bracket : Bracket) (tol fa fb : Float) (report : Report BisectionRecord) :
    List Call → Prop
  | left (small : fa.abs < tol) (root : report.root = bracket.left) (fRoot : report.fRoot = fa)
      (status : report.status = .absFxReached) : Immediate bracket tol fa fb report []
  | right (left : ¬ fa.abs < tol) (small : fb.abs < tol) (root : report.root = bracket.right)
      (fRoot : report.fRoot = fb) (status : report.status = .absFxReached) :
      Immediate bracket tol fa fb report []
  | narrow (left : ¬ fa.abs < tol) (right : ¬ fb.abs < tol) (opposite : OppositeSigns fa fb)
      (narrow : bracket.right - bracket.left ≤ tol)
      (root : report.root = bracket.left + (bracket.right - bracket.left) / 2.0)
      (status : report.status = .widthTolReached) :
      Immediate bracket tol fa fb report [⟨report.root, .ok report.fRoot⟩]

section
variable {bracket : Bracket} {cfg : BisectionConfig} {fa fb : Float}

private theorem Selects.immediate {course : Course} {later : List Call}
    (h : Selects bracket cfg fa fb course later)
    {evaluations hits : Nat} {report : Report BisectionRecord}
    (hreport : course.result bracket evaluations hits = .ok report) :
    Immediate bracket cfg.tolerance.value fa fb report later ∨
      ¬ bracket.width ≤ cfg.tolerance.value ∧ ∃ d, course = .halved fa d := by
  cases h with
  | left small =>
    cases hreport
    exact .inl (.left small rfl rfl rfl)
  | right left small =>
    cases hreport
    exact .inl (.right left small rfl rfl rfl)
  | noSignChange => cases hreport
  | narrow left right opposite narrow outcome =>
    cases outcome with
    | error e => cases hreport
    | ok value =>
      cases hreport
      exact .inl (.narrow left right opposite narrow rfl rfl)
  | halved _ _ _ wide d => exact .inr ⟨wide, d, rfl⟩

private theorem Immediate.terminationReason {tol : Float} {report : Report BisectionRecord}
    {later : List Call}
    (h : Immediate bracket tol fa fb report later) : report.terminationReason = .toleranceReached := by
  cases h with
  | left _ _ _ status => exact congrArg ToleranceStatus.reason status
  | right _ _ _ _ status => exact congrArg ToleranceStatus.reason status
  | narrow _ _ _ _ _ status => exact congrArg ToleranceStatus.reason status

private theorem Explores.records_ne_nil {d : Descent} {samples : List Call}
    (h : Explores bracket cfg (.halved fa d) samples) (hb : bracket.isProper = true)
    (hwide : ¬ bracket.width ≤ cfg.tolerance.value) {report : Report BisectionRecord}
    (hreport : d.IsReported bracket fa report) : d.records ≠ [] := by
  have hfinite := Bracket.isFinite_of_isProper hb
  have htol := tolerance_pos cfg.tolerance
  have hlt := hfinite.lt_width_of_not_le (isNaN_of_lt htol).2 hwide
  cases h with
  | halved _ fb _ calls _ _ _ halvings =>
    -- the width that is tested and the logarithm that the cap is made of agree: a wide interval has a cap
    have hcap : 0 < (cap bracket cfg).toNat :=
      one_le_iterationCap hfinite.width (tolerance_isFinite cfg.tolerance) htol hlt cfg.safetyMargin
    exact halvings.records_ne_nil hcap hlt hreport.status

end

section
variable {σ : Type} {f : Sampler σ} {bracket : Bracket} {cfg : BisectionConfig} {s : σ} {fa : Float}
  {d : Descent}

private theorem wide_of_halved {sample : Sampler σ}
    (h : (explore sample bracket cfg s).1 = .halved fa d) :
    ¬ bracket.width ≤ cfg.tolerance.value := by
  -- what selects the course is known for recorded samples, and the record does not change the course
  obtain ⟨hcourse, -⟩ :=
    (agree_recorded sample).run (exploration bracket cfg) s (.start s) rfl trivial
  rw [explore_eq_run, hcourse, ← explore_eq_run] at h
  rcases selects_explore sample bracket cfg s with ⟨e, he⟩ | ⟨fa', fb, later, hselects, -⟩
  · rw [h] at he
    cases he
  · rw [h] at hselects
    cases hselects with
    | halved _ _ _ wide => exact wide

private theorem reported_of_halved {report : Report BisectionRecord}
    (h : (bisection f bracket cfg s).1.result = .ok report) {cache : SampleCache σ}
    (hcache : SampleCache.ofTolerance cfg.tolerance s = .ok cache)
    (hcourse : (explore (SampleCache.sample f) bracket cfg cache).1 = .halved fa d) :
    ∃ r, d.records.getLast? = some r ∧ report.root = r.midpoint ∧ report.fRoot = r.fMid := by
  obtain ⟨hs, rfl⟩ := SampleCache.fresh_of_ofTolerance hcache
  obtain ⟨hb, -⟩ := accepted_of_ok h
  have hwide := wide_of_halved hcourse
  have hexplores := explores_fresh (f := f) (s := s) hb hs
  rw [hcourse] at hexplores
  rw [bisection_of_step hb hs, ← explore_eq_run] at h
  simp only [hcourse] at h
  have hreport := Course.isReported_of_ok h
  have hne := hexplores.records_ne_nil hb hwide hreport
  have hlast := List.getLast?_eq_some_getLast hne
  have hroot := hreport.root
  rw [Descent.last, hlast] at hroot
  exact ⟨d.records.getLast hne, hlast, congrArg Prod.fst hroot, congrArg Prod.snd hroot⟩

/-- A report without a trace is about an end whose value is small, or about the midpoint of an interval that is
narrow from the start. Where the interval comes to be halved, the report is on a record, and never on the left
end, which stands in for the midpoint before the first halving. -/
theorem empty_trace_is_genuine (f : Sampler σ) (bracket : Bracket) (cfg : BisectionConfig) (s : σ)
    (report : Report BisectionRecord) (h : (bisection f bracket cfg s).1.result = .ok report) :
    (report.trace = [] → report.terminationReason = .toleranceReached ∧
      ∃ fa fb later, samples f bracket cfg s =
          ⟨bracket.left, .ok fa⟩ :: ⟨bracket.right, .ok fb⟩ :: later ∧
        Immediate bracket cfg.tolerance.value fa fb report later) ∧
    ∀ cache, SampleCache.ofTolerance cfg.tolerance s = .ok cache →
      ∀ fa d, (explore (SampleCache.sample f) bracket cfg cache).1 = .halved fa d →
        ∃ r, d.records.getLast? = some r ∧ report.root = r.midpoint ∧ report.fRoot = r.fMid := by
  constructor
  · intro hempty
    obtain ⟨hb, hs⟩ := accepted_of_ok h
    obtain ⟨course, -, evaluations, hits, hexplores, hselected, hresult, -⟩ :=
      explores_with_ledger f s hb hs
    have hreport := hresult.symm.trans h
    obtain ⟨e, rfl⟩ | ⟨fa, fb, later, hselects, hsamples⟩ := hselected
    · cases hreport
    · rcases hselects.immediate hreport with himmediate | ⟨hwide, d, rfl⟩
      · exact ⟨himmediate.terminationReason, fa, fb, later, hsamples, himmediate⟩
      · have hhalved := Course.isReported_of_ok hreport
        exact absurd (hhalved.trace.symm.trans hempty) (hexplores.records_ne_nil hb hwide hhalved)
  · intro cache hcache fa d hcourse
    exact reported_of_halved h hcache hcourse

end

/-- A step, without any margin: an interval that is as wide as the tolerance is not halved. -/
theorem empty_trace_is_genuine_no_margin :
    let f : Sampler Nat := fun x n => (.ok (if x < 3.0 then -8.0 else 8.0), n + 1)
    let cfg : BisectionConfig := ⟨⟨3.0, by decide +kernel⟩, 0⟩
    let report : Report BisectionRecord := ⟨2.5, -8.0, 3, 0, .widthTolReached, .bisection, []⟩
    (bisection f ⟨1.0, 4.0⟩ cfg 0).1.result = .ok report ∧ report.trace = [] ∧
    ∃ fa fb later, samples f ⟨1.0, 4.0⟩ cfg 0 = ⟨1.0, .ok fa⟩ :: ⟨4.0, .ok fb⟩ :: later ∧
      Immediate ⟨1.0, 4.0⟩ cfg.tolerance.value fa fb report later := by
  intro f cfg report
  have hresult : (bisection f ⟨1.0, 4.0⟩ cfg 0).1.result = .ok report := ok_of_toOption (by decide +kernel)
  have himmediate := ((empty_trace_is_genuine f ⟨1.0, 4.0⟩ cfg 0 report hresult).1 rfl).2
  exact ⟨hresult, rfl, himmediate⟩

end Bisection
end FormulaRoots
