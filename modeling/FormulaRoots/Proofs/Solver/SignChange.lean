import FormulaRoots.Proofs.Solver.Trace

/-! The change of sign across the brackets of a bisection. It lasts as long as all samples are numbers. A
midpoint without a value costs it: the half to the right of it is kept unseen, and only a later value
on the other side of zero than the one at the right end brings the change of sign back. -/
namespace FormulaRoots

namespace Span

structure ChangesSign (s : Span) (tol : Float) : Prop where
  opposite : OppositeSigns s.fLeft s.fRight
  left : tol ≤ s.fLeft.abs
  right : tol ≤ s.fRight.abs

private theorem ChangesSign.of_not_small {s : Span} {tol : Float} (h : OppositeSigns s.fLeft s.fRight)
    (htol : 0.0 < tol) (hleft : ¬ s.fLeft.abs < tol) (hright : ¬ s.fRight.abs < tol) :
    s.ChangesSign tol :=
  ⟨h, (abs_ge_of_not_lt h.isNaN.1 htol hleft).1, (abs_ge_of_not_lt h.isNaN.2 htol hright).1⟩

private theorem ChangesSign.next {s : Span} {tol : Float} (h : s.ChangesSign tol) (htol : 0.0 < tol)
    {r : BisectionRecord} (hnumber : r.fMid.isNaN = false) (hlarge : ¬ r.fMid.abs < tol) :
    (s.next r).ChangesSign tol := by
  obtain ⟨habs, hsign⟩ := abs_ge_of_not_lt hnumber htol hlarge
  by_cases ho : OppositeSigns s.fLeft r.fMid
  · rw [next_of_opposite ho]
    exact ⟨ho, h.left, habs⟩
  · rw [next_of_not_opposite ho]
    exact ⟨h.opposite.of_left hsign ho, habs, h.right⟩

private theorem ChangesSign.after {s : Span} {tol : Float} (h : s.ChangesSign tol) (htol : 0.0 < tol)
    {records : List BisectionRecord} (hnumber : ∀ r ∈ records, r.fMid.isNaN = false)
    (hlarge : ∀ r ∈ records, ¬ r.fMid.abs < tol) : (s.after records).ChangesSign tol := by
  induction records generalizing s with
  | nil => exact h
  | cons r records ih =>
    rw [List.forall_mem_cons] at hnumber hlarge
    exact ih (h.next htol hnumber.1 hlarge.1) hnumber.2 hlarge.2

private theorem midpoint_mem_after (s : Span) {records : List BisectionRecord} {r : BisectionRecord}
    (hr : records.getLast? = some r) :
    r.midpoint = (s.after records).bracket.left ∨ r.midpoint = (s.after records).bracket.right := by
  obtain ⟨front, rfl⟩ := List.getLast?_eq_some_iff.mp hr
  rw [after_append, after_cons, after_nil]
  by_cases ho : OppositeSigns (s.after front).fLeft r.fMid
  · rw [next_of_opposite ho]
    exact .inr rfl
  · rw [next_of_not_opposite ho]
    exact .inl rfl

/-- Wherever a halving finds no value, a later one finds a value on the other side of zero than the value
at the right end. -/
def Recovers (s : Span) : List BisectionRecord → Prop
  | [] => True
  | r :: records =>
    (r.fMid.isNaN = true → ∃ later ∈ records, OppositeSigns later.fMid s.fRight) ∧
      (s.next r).Recovers records

/-- A midpoint without a value hides what is left of it. -/
theorem next_of_isNaN {s : Span} {r : BisectionRecord} (h : r.fMid.isNaN = true) :
    s.next r = ⟨⟨r.midpoint, r.right⟩, r.fMid, s.fRight⟩ := by
  refine next_of_not_opposite fun ho => ?_
  rw [ho.isNaN.2] at h
  exact Bool.false_ne_true h

/-- A halving at a number brings out a change of sign between the ends, or between the midpoint and the
right end. -/
theorem opposite_next {s : Span} {r : BisectionRecord} (hr : r.fMid < 0.0 ∨ 0.0 < r.fMid)
    (h : OppositeSigns s.fLeft s.fRight ∨ OppositeSigns r.fMid s.fRight) :
    OppositeSigns (s.next r).fLeft (s.next r).fRight := by
  by_cases ho : OppositeSigns s.fLeft r.fMid
  · rw [next_of_opposite ho]
    exact ho
  · rw [next_of_not_opposite ho]
    exact h.elim (fun h => h.of_left hr ho) id

private theorem next_of_same_sign {s : Span} {r : BisectionRecord}
    (hright : s.fRight < 0.0 ∨ 0.0 < s.fRight)
    (hs : ¬ OppositeSigns s.fLeft s.fRight) (hr : ¬ OppositeSigns r.fMid s.fRight) :
    s.next r = ⟨⟨r.midpoint, r.right⟩, r.fMid, s.fRight⟩ :=
  next_of_not_opposite fun ho => hr (ho.of_left hright hs).symm

/-- Halvings without a small value end with a change of sign if and only if there is one at the start
or later, and none that a midpoint without a value has cost is missed at the end. -/
theorem opposite_after_iff {s : Span} (hright : s.fRight < 0.0 ∨ 0.0 < s.fRight)
    {records : List BisectionRecord}
    (hrecords : ∀ r ∈ records, r.fMid.isNaN = false → r.fMid < 0.0 ∨ 0.0 < r.fMid) :
    OppositeSigns (s.after records).fLeft (s.after records).fRight ↔
      (OppositeSigns s.fLeft s.fRight ∨ ∃ r ∈ records, OppositeSigns r.fMid s.fRight) ∧
        s.Recovers records := by
  induction records generalizing s with
  | nil => simp [Recovers]
  | cons r records ih =>
    rw [List.forall_mem_cons] at hrecords
    rw [after_cons, Recovers]
    simp only [List.mem_cons, exists_eq_or_imp]
    have hkept := ih (s := ⟨⟨r.midpoint, r.right⟩, r.fMid, s.fRight⟩) hright hrecords.2
    cases hnan : r.fMid.isNaN with
    | true =>
      have hmid : ¬ OppositeSigns r.fMid s.fRight := fun ho => by
        rw [ho.isNaN.1] at hnan
        exact Bool.false_ne_true hnan
      rw [next_of_isNaN hnan, hkept]
      simp only [hmid, false_or, true_imp_iff]
      constructor
      · rintro ⟨hlater, hrest⟩
        exact ⟨.inr hlater, hlater, hrest⟩
      · rintro ⟨-, hlater, hrest⟩
        exact ⟨hlater, hrest⟩
    | false =>
      have hr := hrecords.1 hnan
      simp only [Bool.false_eq_true, false_imp_iff, true_and]
      by_cases hs : OppositeSigns s.fLeft s.fRight ∨ OppositeSigns r.fMid s.fRight
      · have hnext := opposite_next hr hs
        rw [ih hnext.right_signed hrecords.2, ← or_assoc]
        simp only [hnext, hs, true_or]
      · rw [not_or] at hs
        rw [next_of_same_sign hright hs.1 hs.2, hkept]
        simp only [hs.1, hs.2, false_or]

end Span

namespace Bisection
variable {σ : Type}

private theorem Halvings.not_small_of_mem_take {tol : Float} {budget iteration : Nat} {span : Span}
    {d : Descent} {calls : List Sampler.Call} (h : Halvings tol budget iteration span d calls) {i : Nat}
    (hi : i < d.records.length) : ∀ r ∈ d.records.take i, ¬ r.fMid.abs < tol := by
  intro r hr hsmall
  obtain ⟨j, hj⟩ := List.mem_iff_getElem?.mp hr
  have hlt : j < (d.records.take i).length := (List.getElem?_eq_some_iff.mp hj).1
  rw [List.length_take] at hlt
  rw [List.getElem?_take_of_lt (by omega)] at hj
  have := h.last_of_small hj hsmall
  omega

private theorem Halvings.changesSign {tol : Float} {budget iteration : Nat} {span : Span} {d : Descent}
    {calls : List Sampler.Call} (h : Halvings tol budget iteration span d calls) (htol : 0.0 < tol)
    (hspan : span.ChangesSign tol) (hnumber : ∀ r ∈ d.records, r.fMid.isNaN = false) {i : Nat}
    (hi : i < d.records.length) : (span.after (d.records.take i)).ChangesSign tol :=
  hspan.after htol (fun r hr => hnumber r (List.mem_of_mem_take hr)) (h.not_small_of_mem_take hi)

/-- If all samples are numbers, the values at the ends of every recorded bracket have opposite signs and are
not small, and so are those of the bracket at the end of a run that is ended by its width. -/
theorem brackets_change_sign (f : Sampler σ) (bracket : Bracket) (cfg : BisectionConfig) (s : σ)
    (report : Report BisectionRecord) (h : (bisection f bracket cfg s).1.result = .ok report)
    (hne : report.trace ≠ [])
    (hnumber : ∀ call ∈ samples f bracket cfg s, ∀ v, call.outcome = .ok v → v.isNaN = false) :
    ∃ fa fb, let start : Span := ⟨bracket, fa, fb⟩
      samples f bracket cfg s = ⟨bracket.left, .ok fa⟩ :: ⟨bracket.right, .ok fb⟩ ::
        report.trace.map BisectionRecord.call ∧
      (∀ (i : Nat) (r : BisectionRecord), report.trace[i]? = some r →
        let span := start.after (report.trace.take i)
        r.bracket = span.bracket ∧ span.IsSampled (samples f bracket cfg s) ∧
          span.ChangesSign cfg.tolerance.value) ∧
      (report.status = .widthTolReached →
        let last := start.after report.trace
        (report.root = last.bracket.left ∨ report.root = last.bracket.right) ∧
          last.bracket.right - last.bracket.left ≤ cfg.tolerance.value ∧
          last.IsSampled (samples f bracket cfg s) ∧ last.ChangesSign cfg.tolerance.value) := by
  have htol := tolerance_pos cfg.tolerance
  obtain ⟨fa, fb, d, calls, hsamples, left, right, opposite, halvings, hreport⟩ := halvings_of_trace h hne
  obtain ⟨hstatus, htrace, hroot⟩ := hreport
  have hcalls := halvings.calls_eq hstatus
  rw [hsamples] at hnumber ⊢
  rw [hcalls] at hnumber halvings ⊢
  rw [htrace]
  have hstart : (⟨bracket, fa, fb⟩ : Span).ChangesSign cfg.tolerance.value :=
    .of_not_small opposite htol left right
  have hrecords : ∀ r ∈ d.records, r.fMid.isNaN = false := by
    intro r hr
    refine hnumber r.call ?_ r.fMid rfl
    exact List.mem_cons_of_mem _ (List.mem_cons_of_mem _ (List.mem_map_of_mem hr))
  refine ⟨fa, fb, rfl, ?_, ?_⟩
  · intro i r hr
    have hi : i < d.records.length := (List.getElem?_eq_some_iff.mp hr).1
    exact ⟨(halvings.isOf hr).bracket, halvings.isSampled i,
      halvings.changesSign htol hstart hrecords hi⟩
  · intro hwidth
    rw [hwidth] at hstatus
    rw [htrace] at hne
    obtain ⟨hlarge, hnarrow⟩ := halvings.fits.of_narrow hstatus
    have hlast := List.getLast?_eq_some_getLast hne
    have hsampled := halvings.isSampled d.records.length
    rw [Descent.last, hlast] at hroot
    rw [List.take_length] at hsampled
    have hroot : report.root = (d.records.getLast hne).midpoint := congrArg Prod.fst hroot
    rw [hroot]
    exact ⟨Span.midpoint_mem_after _ hlast, hnarrow, hsampled, hstart.after htol hrecords hlarge⟩

/-- The search for the square root of 2 ends with a bracket of width 0.25. -/
theorem brackets_change_sign_square :
    let f : Sampler Nat := fun x n => (.ok (x * x - 2.0), n + 1)
    let cfg : BisectionConfig := ⟨⟨0.25, by decide +kernel⟩, 10⟩
    let report : Report BisectionRecord := ⟨1.25, -0.4375, 4, 0, .widthTolReached, .bisection,
      [⟨1, 1.0, 2.0, 1.5, 0.25, 1.0⟩, ⟨2, 1.0, 1.5, 1.25, -0.4375, 0.5⟩]⟩
    (bisection f ⟨1.0, 2.0⟩ cfg 0).1.result = .ok report ∧ report.trace ≠ [] ∧
    (∀ call ∈ samples f ⟨1.0, 2.0⟩ cfg 0, ∀ v, call.outcome = .ok v → v.isNaN = false) ∧
    ∃ fa fb, let last := (⟨⟨1.0, 2.0⟩, fa, fb⟩ : Span).after report.trace
      (report.root = last.bracket.left ∨ report.root = last.bracket.right) ∧
        last.bracket.right - last.bracket.left ≤ 0.25 ∧ last.IsSampled (samples f ⟨1.0, 2.0⟩ cfg 0) ∧
        last.ChangesSign 0.25 := by
  intro f cfg report
  have hresult : (bisection f ⟨1.0, 2.0⟩ cfg 0).1.result = .ok report :=
    ok_of_toOption (by decide +kernel)
  have hne : report.trace ≠ [] := by decide
  have hall : (samples f ⟨1.0, 2.0⟩ cfg 0).all
      (fun call => call.outcome.toOption.all fun v => !v.isNaN) = true := by decide +kernel
  have hnumber : ∀ call ∈ samples f ⟨1.0, 2.0⟩ cfg 0, ∀ v, call.outcome = .ok v → v.isNaN = false := by
    intro call hcall v hv
    have h := List.all_eq_true.mp hall call hcall
    rw [hv] at h
    simpa only [Except.toOption, Option.all_some, Bool.not_eq_true'] using h
  obtain ⟨fa, fb, -, -, hlast⟩ := brackets_change_sign f ⟨1.0, 2.0⟩ cfg 0 report hresult hne hnumber
  exact ⟨hresult, hne, hnumber, fa, fb, hlast rfl⟩

/-- A report that a tolerance was reached has a small value or a change of sign behind it if and only if
every midpoint without a value was followed by a value on the other side of zero than the right end. -/
theorem sign_change_iff_recovers (f : Sampler σ) (bracket : Bracket) (cfg : BisectionConfig) (s : σ)
    (report : Report BisectionRecord) (h : (bisection f bracket cfg s).1.result = .ok report)
    (hreached : report.terminationReason = .toleranceReached) :
    ∃ fa fb, let start : Span := ⟨bracket, fa, fb⟩
      let last := start.after report.trace
      (samples f bracket cfg s).take (2 + report.trace.length) = ⟨bracket.left, .ok fa⟩ ::
        ⟨bracket.right, .ok fb⟩ :: report.trace.map BisectionRecord.call ∧
      last.IsSampled (samples f bracket cfg s) ∧
      (report.fRoot.abs < cfg.tolerance.value ∨ OppositeSigns last.fLeft last.fRight ↔
        report.fRoot.abs < cfg.tolerance.value ∨ start.Recovers report.trace) := by
  have htol := tolerance_pos cfg.tolerance
  obtain ⟨course, evaluations, hits, hexplores, hresult⟩ := explores_of_ok h
  generalize samples f bracket cfg s = all at *
  cases hexplores with
  | leftFailed e => cases hresult
  | rightFailed fa e => cases hresult
  | leftSmall fa fb small =>
    cases hresult
    refine ⟨fa, fb, rfl, ⟨List.mem_cons_self, List.mem_cons_of_mem _ List.mem_cons_self⟩, ?_⟩
    exact iff_of_true (.inl small) (.inl small)
  | rightSmall fa fb small =>
    cases hresult
    refine ⟨fa, fb, rfl, ⟨List.mem_cons_self, List.mem_cons_of_mem _ List.mem_cons_self⟩, ?_⟩
    exact iff_of_true (.inl small) (.inl small)
  | noSignChange fa fb => cases hresult
  | narrow fa fb outcome opposite =>
    cases outcome with
    | error e => cases hresult
    | ok value =>
      cases hresult
      refine ⟨fa, fb, rfl, ⟨List.mem_cons_self, List.mem_cons_of_mem _ List.mem_cons_self⟩, ?_⟩
      exact iff_of_true (.inr opposite) (.inr trivial)
  | halved fa fb d calls left right opposite halvings =>
    obtain ⟨hstatus, htrace, hroot⟩ := Course.isReported_of_ok hresult
    have hcalls := halvings.calls_eq hstatus
    have hsampled := halvings.isSampled d.records.length
    rw [List.take_length] at hsampled
    rw [htrace]
    refine ⟨fa, fb, ?_, hsampled, ?_⟩
    · rw [hcalls]
      refine List.take_of_length_le ?_
      rw [List.length_cons, List.length_cons, List.length_map]
      omega
    · have hfits := halvings.fits
      cases hending : d.ending with
      | smallValue =>
        rw [hending] at hfits
        obtain ⟨r, hr, hsmall⟩ := hfits
        rw [Descent.last, hr] at hroot
        have hvalue : report.fRoot = r.fMid := congrArg Prod.snd hroot
        rw [← hvalue] at hsmall
        exact iff_of_true (.inl hsmall) (.inl hsmall)
      | narrow =>
        rw [hending] at hfits
        have hrecords : ∀ r ∈ d.records, r.fMid.isNaN = false → r.fMid < 0.0 ∨ 0.0 < r.fMid :=
          fun r hr hnumber => (abs_ge_of_not_lt hnumber htol (hfits.1 r hr)).2
        have hiff := Span.opposite_after_iff (s := ⟨bracket, fa, fb⟩) opposite.right_signed hrecords
        rw [hiff]
        simp only [opposite, true_or, true_and]
      | capReached =>
        rw [hending] at hstatus
        rw [Report.terminationReason, ← Except.ok.inj hstatus] at hreached
        cases hreached
      | failed e =>
        rw [hending] at hstatus
        cases hstatus

/-- A midpoint without a value, and then a value on the other side of zero than the right end. -/
theorem sign_change_iff_recovers_gap :
    let f : Sampler Unit := fun x s => (.ok (if x < 0.25 then -1.0 else if x < 0.625 then 0.0 / 0.0
      else if x < 0.875 then -1.0 else 1.0), s)
    let cfg : BisectionConfig := ⟨⟨0.25, by decide +kernel⟩, 10⟩
    let report : Report BisectionRecord := ⟨0.75, -1.0, 4, 0, .widthTolReached, .bisection,
      [⟨1, 0.0, 1.0, 0.5, 0.0 / 0.0, 1.0⟩, ⟨2, 0.5, 1.0, 0.75, -1.0, 0.5⟩]⟩
    (bisection f ⟨0.0, 1.0⟩ cfg ()).1.result = .ok report ∧
    report.terminationReason = .toleranceReached ∧
    ∃ fa fb, let start : Span := ⟨⟨0.0, 1.0⟩, fa, fb⟩
      let last := start.after report.trace
      last.IsSampled (samples f ⟨0.0, 1.0⟩ cfg ()) ∧
      (report.fRoot.abs < 0.25 ∨ OppositeSigns last.fLeft last.fRight ↔
        report.fRoot.abs < 0.25 ∨ start.Recovers report.trace) := by
  intro f cfg report
  have hresult : (bisection f ⟨0.0, 1.0⟩ cfg ()).1.result = .ok report :=
    ok_of_toOption (by decide +kernel)
  have hreached : report.terminationReason = .toleranceReached := rfl
  obtain ⟨fa, fb, -, hrest⟩ := sign_change_iff_recovers f ⟨0.0, 1.0⟩ cfg () report hresult hreached
  exact ⟨hresult, hreached, fa, fb, hrest⟩

/-- A midpoint without a value, and then none but values of the same sign as at the right end. -/
theorem tolerance_reached_without_sign_change :
    let f : Sampler Unit := fun x s =>
      (.ok (if x < 0.25 then -1.0 else if x < 0.625 then 0.0 / 0.0 else 1.0), s)
    let cfg : BisectionConfig := ⟨⟨0.25, by decide +kernel⟩, 10⟩
    let report : Report BisectionRecord := ⟨0.75, 1.0, 4, 0, .widthTolReached, .bisection,
      [⟨1, 0.0, 1.0, 0.5, 0.0 / 0.0, 1.0⟩, ⟨2, 0.5, 1.0, 0.75, 1.0, 0.5⟩]⟩
    (bisection f ⟨0.0, 1.0⟩ cfg ()).1.result = .ok report ∧
    report.terminationReason = .toleranceReached ∧
    (samples f ⟨0.0, 1.0⟩ cfg ()).map (fun call => (call.argument, call.outcome.toOption)) =
      [(0.0, some (-1.0)), (1.0, some 1.0), (0.5, some (0.0 / 0.0)), (0.75, some 1.0)] ∧
    let last := (⟨⟨0.0, 1.0⟩, -1.0, 1.0⟩ : Span).after report.trace
    last.bracket = ⟨0.75, 1.0⟩ ∧ last.fLeft = 1.0 ∧ last.fRight = 1.0 ∧
      ¬ (report.fRoot.abs < cfg.tolerance.value ∨ OppositeSigns last.fLeft last.fRight) := by
  intro f cfg report
  have hresult : (bisection f ⟨0.0, 1.0⟩ cfg ()).1.result = .ok report :=
    ok_of_toOption (by decide +kernel)
  exact ⟨hresult, rfl, by decide +kernel, by decide +kernel⟩

end Bisection
end FormulaRoots
