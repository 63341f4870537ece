import FormulaRoots.Proofs.Solver.Cap
import FormulaRoots.Proofs.Solver.Failures

/-! The safety margin of a bisection. A larger one allows more halvings and changes nothing else: a run that
was not stopped at its cap stays as it is, and one that was goes on from there. -/
namespace FormulaRoots
open Binary64 Sampler

/-- A larger margin lowers no cap. -/
theorem iterationCap_mono (a b tolerance : Float) {m m' : UInt64} (h : m ≤ m') :
    (iterationCap a b tolerance m).toNat ≤ (iterationCap a b tolerance m').toNat := by
  have hcap := toNat_capOf (ceilLog2 ((b - a) / tolerance)) m
  have hcap' := toNat_capOf (ceilLog2 ((b - a) / tolerance)) m'
  have hmargin : m.toNat ≤ m'.toNat := UInt64.le_iff_toNat_le.mp h
  rw [← iterationCap] at hcap hcap'
  omega

private theorem SampleCache.calls_run {α σ : Type} (f : Sampler σ) (q : Inquiry α)
    (cache : SampleCache (Recorded σ)) :
    cache.source.calls <:+ (q.run (sample (recorded f)) cache).2.source.calls :=
  keeps_run (P := fun r : Recorded σ => cache.source.calls <:+ r.calls)
    (fun _ _ h => h.trans (List.suffix_cons ..)) q List.suffix_rfl

namespace Bisection

def Descent.followedBy (d d' : Descent) : Descent :=
  { d' with records := d.records ++ d'.records }

private theorem Descent.followedBy_of_nil {d : Descent} (h : d.records = []) (d' : Descent) :
    d.followedBy d' = d' := by
  rw [followedBy, h, List.nil_append]

private theorem descend_of_narrow {σ : Type} (sample : Sampler σ) {tol : Float} {bracket : Bracket}
    (h : ¬ tol < bracket.width) (budget iteration : Nat) (fLeft : Float) (s : σ) :
    descend sample tol budget iteration bracket fLeft s = (.stop tol bracket, s) := by
  cases budget with
  | zero => rfl
  | succ budget => rw [descend, if_neg h]

/-- With more halvings allowed a run is the same, or it was stopped at the cap and goes on from there. -/
theorem descend_add {σ : Type} (sample : Sampler σ) (tol : Float) (budget more iteration : Nat)
    (bracket : Bracket) (fLeft : Float) (s : σ) :
    let r := descend sample tol budget iteration bracket fLeft s
    let r' := descend sample tol (budget + more) iteration bracket fLeft s
    r' = r ∨ r.1.ending = .capReached ∧ ∃ number fLast,
      let rest := descend sample tol more number r.1.bracket fLast r.2
      r' = (r.1.followedBy rest.1, rest.2) := by
  -- where the smaller number is used up, a bracket that is still wide is halved further
  induction budget generalizing iteration bracket fLeft s with
  | zero =>
    intro r r'
    by_cases hle : bracket.width ≤ tol
    · have hnarrow : ¬ tol < bracket.width := fun hlt => not_le_of_lt hlt hle
      exact .inl (descend_of_narrow sample hnarrow _ iteration fLeft s)
    · refine .inr ⟨if_neg hle, iteration, fLeft, ?_⟩
      intro rest
      have hrest : r' = rest :=
        congrArg (descend sample tol · iteration bracket fLeft s) (Nat.zero_add more)
      rw [hrest, Descent.followedBy_of_nil rfl]
  | succ budget ih =>
    by_cases hwide : tol < bracket.width
    · rw [Nat.succ_add, descend, descend, if_pos hwide, if_pos hwide]
      rcases sample bracket.midpoint s with ⟨e | fMid, s₁⟩
      · exact .inl rfl
      · by_cases hsmall : fMid.abs < tol
        · simp only [if_pos hsmall]
          exact .inl trivial
        · simp only [if_neg hsmall]
          rcases ih (iteration + 1) (bracket.half fLeft fMid)
            (if changesSign fLeft fMid then fLeft else fMid) s₁ with hsame | ⟨hcap, number, fLast, hrest⟩
          · rw [hsame]
            exact .inl rfl
          · rw [hrest]
            exact .inr ⟨hcap, number, fLast, rfl⟩
    · intro r r'
      exact .inl ((descend_of_narrow sample hwide _ iteration fLeft s).trans
        (descend_of_narrow sample hwide _ iteration fLeft s).symm)

private theorem explore_of_le {σ : Type} (sample : Sampler σ) (bracket : Bracket)
    (cfg : BisectionConfig) {m m' : UInt64} (h : m ≤ m') (s : σ) :
    let r := explore sample bracket (cfg.withSafetyMargin m) s
    let r' := explore sample bracket (cfg.withSafetyMargin m') s
    r' = r ∨ ∃ fa d, r.1 = .halved fa d ∧ d.ending = .capReached ∧ ∃ budget number fLast,
      let rest := descend sample cfg.tolerance.value budget number d.bracket fLast r.2
      r' = (.halved fa (d.followedBy rest.1), rest.2) := by
  obtain ⟨more, hmore⟩ : ∃ more, (cap bracket (cfg.withSafetyMargin m')).toNat =
      (cap bracket (cfg.withSafetyMargin m)).toNat + more :=
    Nat.exists_eq_add_of_le (iterationCap_mono bracket.left bracket.right cfg.tolerance.value h)
  have htol (m : UInt64) : (cfg.withSafetyMargin m).tolerance = cfg.tolerance := rfl
  unfold explore
  simp only [hmore, htol]
  rcases sample bracket.left s with ⟨e | fa, s₁⟩
  · exact .inl rfl
  · simp only
    rcases sample bracket.right s₁ with ⟨e | fb, s₂⟩
    · exact .inl rfl
    · simp only
      -- only the last of the five courses depends on the cap
      split_ifs
      · exact .inl rfl
      · exact .inl rfl
      · exact .inl rfl
      · exact .inl rfl
      · rcases descend_add sample cfg.tolerance.value (cap bracket (cfg.withSafetyMargin m)).toNat more 1
          bracket fa s₂ with hsame | ⟨hcap, number, fLast, hrest⟩
        · rw [hsame]
          exact .inl rfl
        · rw [hrest]
          exact .inr ⟨fa, _, rfl, hcap, more, number, fLast, rfl⟩

private theorem Course.result_followedBy (fa : Float) (d d' : Descent) (bracket : Bracket)
    (evaluations hits : Nat) :
    (∃ e, (Course.halved fa (d.followedBy d')).result bracket evaluations hits = .error (.arithmetic e)) ∨
      ∃ report, (Course.halved fa (d.followedBy d')).result bracket evaluations hits = .ok report ∧
        d.records <+: report.trace := by
  cases hresult : (Course.halved fa (d.followedBy d')).result bracket evaluations hits with
  | error e =>
    rcases Course.error_cases hresult with ⟨cause, -, rfl⟩ | ⟨_, _, hcourse, -⟩
    · exact .inl ⟨cause, rfl⟩
    · cases hcourse
  | ok report =>
    have htrace := (Course.isReported_of_ok hresult).trace
    exact .inr ⟨report, rfl, htrace ▸ List.prefix_append ..⟩

structure Extends (calls calls' : List Call) (result result' : Except SolverError (Report BisectionRecord)) :
    Prop where
  error : ∀ e, result = .error e → result' = .error e
  converged : ∀ report, result = .ok report → report.terminationReason = .toleranceReached →
    result' = .ok report
  /-- From the limit the run goes on: it fails later, or it is reported with a longer trace. -/
  limit : ∀ report, result = .ok report → report.terminationReason = .iterationLimit →
    calls <+: calls' ∧ ((∃ e, result' = .error (.arithmetic e)) ∨
      ∃ report', result' = .ok report' ∧ report.trace <+: report'.trace)

private theorem Extends.refl (calls : List Call)
    (result : Except SolverError (Report BisectionRecord)) :
    Extends calls calls result result where
  error _ he := he
  converged _ hreport _ := hreport
  limit report hreport _ := ⟨List.prefix_rfl, .inr ⟨report, hreport, List.prefix_rfl⟩⟩

private theorem extends_followedBy {calls calls' : List Call} (hcalls : calls <+: calls') {fa : Float}
    {d : Descent} (hcap : d.ending = .capReached) (d' : Descent) (bracket : Bracket)
    (evaluations hits evaluations' hits' : Nat) :
    Extends calls calls' ((Course.halved fa d).result bracket evaluations hits)
      ((Course.halved fa (d.followedBy d')).result bracket evaluations' hits') where
  error e he := by
    rw [Course.result, hcap] at he
    cases he
  converged report hreport hconverged := by
    rw [Course.result, hcap] at hreport
    cases hreport
    cases hconverged
  limit report hreport _ := by
    have htrace := (Course.isReported_of_ok hreport).trace
    rw [htrace]
    exact ⟨hcalls, Course.result_followedBy fa d d' bracket evaluations' hits'⟩

private theorem result_and_calls {σ : Type} (f : Sampler σ) {bracket : Bracket} {cfg : BisectionConfig}
    (m : UInt64) (s : σ) (hb : bracket.isProper = true)
    (hs : isRoundingStep (SampleCache.stepFor cfg.tolerance.value) = true) :
    let r := explore (SampleCache.sample (recorded f)) bracket (cfg.withSafetyMargin m)
      (.fresh cfg.tolerance hs (.start s))
    (bisection f bracket (cfg.withSafetyMargin m) s).1.result =
        r.1.result bracket r.2.evaluations r.2.hits ∧
      calls f bracket (cfg.withSafetyMargin m) s = r.2.source.calls.reverse := by
  have hstep : isRoundingStep (SampleCache.stepFor (cfg.withSafetyMargin m).tolerance.value) = true := hs
  rw [bisection_recorded, calls, bisection_of_step hb hstep, explore_eq_run]
  exact ⟨rfl, rfl⟩

end Bisection

/-- A larger safety margin only extends a bisection. An error and the report of a run that converged are
those of the smaller margin. -/
theorem bisection_of_larger_margin {σ : Type} (f : Sampler σ) (bracket : Bracket) (cfg : BisectionConfig)
    (s : σ) {m m' : UInt64} (h : m ≤ m') :
    Bisection.Extends
      (Bisection.calls f bracket (cfg.withSafetyMargin m) s)
      (Bisection.calls f bracket (cfg.withSafetyMargin m') s)
      (bisection f bracket (cfg.withSafetyMargin m) s).1.result
      (bisection f bracket (cfg.withSafetyMargin m') s).1.result := by
  by_cases hb : bracket.isProper = true
  · by_cases hs : isRoundingStep (SampleCache.stepFor cfg.tolerance.value) = true
    · obtain ⟨hresult, hcalls⟩ := Bisection.result_and_calls f m s hb hs
      obtain ⟨hresult', hcalls'⟩ := Bisection.result_and_calls f m' s hb hs
      rw [hresult, hcalls, hresult', hcalls']
      rcases Bisection.explore_of_le (SampleCache.sample (recorded f)) bracket cfg h
        (.fresh cfg.tolerance hs (.start s)) with hsame | ⟨fa, d, hcourse, hcap, budget, number, fLast, hrest⟩
      · rw [hsame]
        exact .refl _ _
      · rw [hrest, hcourse]
        refine Bisection.extends_followedBy (List.reverse_prefix.mpr ?_) hcap _ _ _ _ _ _
        rw [Bisection.descend_eq_run]
        exact SampleCache.calls_run f _ _
    · have hstep (m : UInt64) :
          ¬ isRoundingStep (SampleCache.stepFor (cfg.withSafetyMargin m).tolerance.value) = true := hs
      rw [Bisection.calls_of_no_step hb (hstep m), Bisection.calls_of_no_step hb (hstep m'),
        Bisection.bisection_of_no_step hb (hstep m), Bisection.bisection_of_no_step hb (hstep m')]
      exact .refl _ _
  · rw [Bisection.calls_of_improper hb, Bisection.calls_of_improper hb,
      Bisection.bisection_of_improper hb, Bisection.bisection_of_improper hb]
    exact .refl _ _

/-- Between two doubles that are next to each other every halving that is allowed is made. -/
theorem bisection_of_larger_margin_stalled :
    let f : Sampler Nat := fun x n => (.ok (if x ≤ 9223372036854775808.0 then -1000.0 else 1000.0), n + 1)
    let bracket : Bracket := ⟨9223372036854775808.0, 9223372036854777856.0⟩
    let cfg : BisectionConfig := ⟨⟨256.0, by decide +kernel⟩, 10⟩
    let record (i : Nat) : BisectionRecord := .ofBracket i bracket (-1000.0)
    let report (records : List BisectionRecord) : Report BisectionRecord :=
      ⟨bracket.left, -1000.0, 2, records.length, .toleranceNotReached, .bisection, records⟩
    (0 : UInt64) ≤ 1 ∧
    (bisection f bracket (cfg.withSafetyMargin 0) 0).1.result = .ok (report [record 1, record 2, record 3]) ∧
    (bisection f bracket (cfg.withSafetyMargin 1) 0).1.result =
      .ok (report [record 1, record 2, record 3, record 4]) ∧
    Bisection.calls f bracket (cfg.withSafetyMargin 0) 0 <+:
      Bisection.calls f bracket (cfg.withSafetyMargin 1) 0 := by
  intro f bracket cfg record report
  have hmargin : (0 : UInt64) ≤ 1 := by decide
  have hshort : (bisection f bracket (cfg.withSafetyMargin 0) 0).1.result =
      .ok (report [record 1, record 2, record 3]) := ok_of_toOption (by decide +kernel)
  have hlong : (bisection f bracket (cfg.withSafetyMargin 1) 0).1.result =
      .ok (report [record 1, record 2, record 3, record 4]) := ok_of_toOption (by decide +kernel)
  have hextends := bisection_of_larger_margin f bracket cfg 0 hmargin
  exact ⟨hmargin, hshort, hlong, (hextends.limit _ hshort rfl).1⟩

end FormulaRoots
