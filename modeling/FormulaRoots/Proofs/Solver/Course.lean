import FormulaRoots.Proofs.Solver.Agreement
import FormulaRoots.Proofs.Solver.Brackets
import FormulaRoots.Proofs.Solver.Signs

/-! The runs of a bisection as a relation between their course and the values that were sampled. The
program keeps the value at the left end of its bracket only; a span has the values at both ends. -/
namespace FormulaRoots
open Binary64

structure Span where
  bracket : Bracket
  fLeft : Float
  fRight : Float

namespace Span

/-- What a halving keeps: the left half if the values at the left end and at the midpoint have opposite
signs, and the right half otherwise. -/
def next (s : Span) (r : BisectionRecord) : Span :=
  if OppositeSigns s.fLeft r.fMid then ⟨⟨r.left, r.midpoint⟩, s.fLeft, r.fMid⟩
  else ⟨⟨r.midpoint, r.right⟩, r.fMid, s.fRight⟩

def after (s : Span) (records : List BisectionRecord) : Span :=
  records.foldl next s

@[simp] theorem after_nil (s : Span) : s.after [] = s := rfl

@[simp] theorem after_cons (s : Span) (r : BisectionRecord) (records : List BisectionRecord) :
    s.after (r :: records) = (s.next r).after records := rfl

theorem next_of_opposite {s : Span} {r : BisectionRecord} (h : OppositeSigns s.fLeft r.fMid) :
    s.next r = ⟨⟨r.left, r.midpoint⟩, s.fLeft, r.fMid⟩ :=
  if_pos h

theorem next_of_not_opposite {s : Span} {r : BisectionRecord} (h : ¬ OppositeSigns s.fLeft r.fMid) :
    s.next r = ⟨⟨r.midpoint, r.right⟩, r.fMid, s.fRight⟩ :=
  if_neg h

private theorem next_ofBracket (s : Span) (iteration : Nat) (fMid : Float) :
    (s.next (.ofBracket iteration s.bracket fMid)).bracket = s.bracket.half s.fLeft fMid ∧
    (s.next (.ofBracket iteration s.bracket fMid)).fLeft =
      if changesSign s.fLeft fMid then s.fLeft else fMid := by
  unfold Bracket.half
  by_cases h : OppositeSigns s.fLeft fMid
  · have hnext := next_of_opposite (r := .ofBracket iteration s.bracket fMid) h
    have hsign : changesSign s.fLeft fMid = true := (changesSign_iff ..).mpr h
    rw [hnext, if_pos hsign, if_pos hsign]
    exact ⟨rfl, rfl⟩
  · have hnext := next_of_not_opposite (r := .ofBracket iteration s.bracket fMid) h
    have hsign : ¬ changesSign s.fLeft fMid = true := mt (changesSign_iff ..).mp h
    rw [hnext, if_neg hsign, if_neg hsign]
    exact ⟨rfl, rfl⟩

end Span

def BisectionRecord.call (r : BisectionRecord) : Sampler.Call :=
  ⟨r.midpoint, .ok r.fMid⟩

namespace Bisection
variable {σ : Type}

/-- The samples of a bisection, the first one first, with the outcomes that its cache gives. Arguments
that are refused are followed by no sample. -/
def samples (f : Sampler σ) (bracket : Bracket) (cfg : BisectionConfig) (s : σ) : List Sampler.Call :=
  if !bracket.isProper then []
  else
    match SampleCache.ofTolerance cfg.tolerance s with
    | .error _ => []
    | .ok cache =>
      (explore (Sampler.recorded (SampleCache.sample f)) bracket cfg (.start cache)).2.calls.reverse

/-- Halvings of a span, at most `budget` of them and the first one with number `iteration`, with the
samples that they take. -/
inductive Halvings (tol : Float) : Nat → Nat → Span → Descent → List Sampler.Call → Prop
  | capReached {iteration : Nat} {span : Span} (wide : tol < span.bracket.width) :
      Halvings tol 0 iteration span ⟨[], span.bracket, .capReached⟩ []
  | narrow {budget iteration : Nat} {span : Span} (narrow : span.bracket.width ≤ tol) :
      Halvings tol budget iteration span ⟨[], span.bracket, .narrow⟩ []
  | failed {budget iteration : Nat} {span : Span} (e : DivisionByZero)
      (wide : tol < span.bracket.width) :
      Halvings tol (budget + 1) iteration span ⟨[], span.bracket, .failed e⟩
        [⟨span.bracket.midpoint, .error e⟩]
  | smallValue {budget iteration : Nat} {span : Span} (fMid : Float)
      (wide : tol < span.bracket.width) (small : fMid.abs < tol) :
      Halvings tol (budget + 1) iteration span
        ⟨[.ofBracket iteration span.bracket fMid], span.bracket, .smallValue⟩
        [⟨span.bracket.midpoint, .ok fMid⟩]
  | halved {budget iteration : Nat} {span : Span} {d : Descent} {calls : List Sampler.Call}
      (fMid : Float) (wide : tol < span.bracket.width) (large : ¬ fMid.abs < tol)
      (rest : Halvings tol budget (iteration + 1)
        (span.next (.ofBracket iteration span.bracket fMid)) d calls) :
      Halvings tol (budget + 1) iteration span (d.cons (.ofBracket iteration span.bracket fMid))
        (⟨span.bracket.midpoint, .ok fMid⟩ :: calls)

private theorem halvings_stop {tol : Float} (htol : tol.isNaN = false) {budget iteration : Nat}
    {span : Span} (hspan : span.bracket.IsFinite) (h : budget = 0 ∨ ¬ tol < span.bracket.width) :
    Halvings tol budget iteration span (.stop tol span.bracket) [] := by
  unfold Descent.stop
  by_cases hw : span.bracket.width ≤ tol
  · rw [if_pos hw]
    exact .narrow hw
  · have hwide := hspan.lt_width_of_not_le htol hw
    obtain rfl : budget = 0 := h.resolve_right (not_not_intro hwide)
    rw [if_neg hw]
    exact .capReached hwide

/-- Every run of the loop is a sequence of halvings. -/
theorem halvings_descend (sample : Sampler σ) {tol : Float} (htol : 0.0 < tol)
    (budget iteration : Nat) (span : Span) (hspan : span.bracket.IsFinite)
    (r : Sampler.Recorded σ) :
    ∃ calls, (descend (Sampler.recorded sample) tol budget iteration span.bracket span.fLeft r).2.calls
        = calls.reverse ++ r.calls ∧
      Halvings tol budget iteration span
        (descend (Sampler.recorded sample) tol budget iteration span.bracket span.fLeft r).1 calls := by
  have hnumber := (isNaN_of_lt htol).2
  induction budget generalizing iteration span r with
  | zero => exact ⟨[], rfl, halvings_stop hnumber hspan (.inl rfl)⟩
  | succ budget ih =>
    unfold descend
    by_cases hwide : tol < span.bracket.width
    · rw [if_pos hwide]
      simp only [Sampler.recorded]
      rcases sample span.bracket.midpoint r.state with ⟨e | fMid, s⟩
      · exact ⟨_, rfl, .failed e hwide⟩
      · by_cases hsmall : fMid.abs < tol
        · simp only [if_pos hsmall]
          exact ⟨[⟨span.bracket.midpoint, .ok fMid⟩], rfl, .smallValue fMid hwide hsmall⟩
        · obtain ⟨hbracket, hleft⟩ := span.next_ofBracket iteration fMid
          have hfinite := hspan.half (lt_trans htol hwide) span.fLeft fMid
          rw [← hbracket] at hfinite
          obtain ⟨calls, hcalls, hrest⟩ := ih (iteration + 1) _ hfinite
            ⟨s, ⟨span.bracket.midpoint, .ok fMid⟩ :: r.calls⟩
          rw [hbracket, hleft] at hcalls hrest
          simp only [if_neg hsmall]
          refine ⟨⟨span.bracket.midpoint, .ok fMid⟩ :: calls, ?_, .halved fMid hwide hsmall hrest⟩
          rw [List.reverse_cons, List.append_assoc]
          exact hcalls
    · rw [if_neg hwide]
      exact ⟨[], rfl, halvings_stop hnumber hspan (.inr hwide)⟩

/-- The courses of a bisection whose arguments have been accepted, with the samples that they take. -/
inductive Explores (bracket : Bracket) (cfg : BisectionConfig) : Course → List Sampler.Call → Prop
  | leftFailed (e : DivisionByZero) :
      Explores bracket cfg (.endFailed e) [⟨bracket.left, .error e⟩]
  | rightFailed (fa : Float) (e : DivisionByZero) :
      Explores bracket cfg (.endFailed e) [⟨bracket.left, .ok fa⟩, ⟨bracket.right, .error e⟩]
  | leftSmall (fa fb : Float) (small : fa.abs < cfg.tolerance.value) :
      Explores bracket cfg (.endpoint bracket.left fa)
        [⟨bracket.left, .ok fa⟩, ⟨bracket.right, .ok fb⟩]
  | rightSmall (fa fb : Float) (small : fb.abs < cfg.tolerance.value) :
      Explores bracket cfg (.endpoint bracket.right fb)
        [⟨bracket.left, .ok fa⟩, ⟨bracket.right, .ok fb⟩]
  | noSignChange (fa fb : Float) :
      Explores bracket cfg (.noSignChange fa fb)
        [⟨bracket.left, .ok fa⟩, ⟨bracket.right, .ok fb⟩]
  | narrow (fa fb : Float) (outcome : Except DivisionByZero Float) (opposite : OppositeSigns fa fb) :
      Explores bracket cfg (.narrow bracket.midpoint outcome)
        [⟨bracket.left, .ok fa⟩, ⟨bracket.right, .ok fb⟩, ⟨bracket.midpoint, outcome⟩]
  | halved (fa fb : Float) (d : Descent) (calls : List Sampler.Call)
      (left : ¬ fa.abs < cfg.tolerance.value) (right : ¬ fb.abs < cfg.tolerance.value)
      (opposite : OppositeSigns fa fb)
      (halvings : Halvings cfg.tolerance.value (cap bracket cfg).toNat 1 ⟨bracket, fa, fb⟩ d calls) :
      Explores bracket cfg (.halved fa d)
        (⟨bracket.left, .ok fa⟩ :: ⟨bracket.right, .ok fb⟩ :: calls)

theorem tolerance_isFinite (tolerance : Tolerance) : tolerance.value.isFinite = true :=
  (isPositiveFinite_iff.mp tolerance.value_valid).1

theorem tolerance_pos (tolerance : Tolerance) : 0.0 < tolerance.value :=
  (isPositiveFinite_iff.mp tolerance.value_valid).2

/-- Every run takes one of the courses. -/
theorem explores_explore (sample : Sampler σ) {bracket : Bracket} (cfg : BisectionConfig)
    (hb : bracket.IsFinite) (s : σ) :
    Explores bracket cfg (explore (Sampler.recorded sample) bracket cfg (.start s)).1
      (explore (Sampler.recorded sample) bracket cfg (.start s)).2.calls.reverse := by
  unfold explore
  simp only [Sampler.recorded, Sampler.Recorded.start]
  rcases sample bracket.left s with ⟨e | fa, s₁⟩
  · exact .leftFailed e
  · simp only
    rcases sample bracket.right s₁ with ⟨e | fb, s₂⟩
    · exact .rightFailed fa e
    · by_cases hleft : fa.abs < cfg.tolerance.value
      · simp only [if_pos hleft]
        exact .leftSmall fa fb hleft
      · by_cases hright : fb.abs < cfg.tolerance.value
        · simp only [if_neg hleft, if_pos hright]
          exact .rightSmall fa fb hright
        · simp only [if_neg hleft, if_neg hright]
          by_cases hsign : changesSign fa fb = true
          · have hopposite := (changesSign_iff fa fb).mp hsign
            by_cases hnarrow : bracket.width ≤ cfg.tolerance.value
            · simp only [hsign, Bool.not_true, Bool.false_eq_true, if_false, if_pos hnarrow]
              exact .narrow fa fb _ hopposite
            · simp only [hsign, Bool.not_true, Bool.false_eq_true, if_false, if_neg hnarrow]
              obtain ⟨calls, hcalls, hrun⟩ := halvings_descend sample (tolerance_pos cfg.tolerance)
                (cap bracket cfg).toNat 1 ⟨bracket, fa, fb⟩ hb
                ⟨s₂, [⟨bracket.right, .ok fb⟩, ⟨bracket.left, .ok fa⟩]⟩
              simp only at hcalls hrun
              rw [hcalls, List.reverse_append, List.reverse_reverse]
              exact .halved fa fb _ calls hleft hright hopposite hrun
          · rw [Bool.not_eq_true] at hsign
            simp only [hsign, Bool.not_false, if_true]
            exact .noSignChange fa fb

section
variable {f : Sampler σ} {bracket : Bracket} {cfg : BisectionConfig} {s : σ}

/-- The course that a bisection takes with a fresh cache is one of its samples. -/
theorem explores_fresh (hb : bracket.isProper = true)
    (hs : isRoundingStep (SampleCache.stepFor cfg.tolerance.value) = true) :
    Explores bracket cfg
      (explore (SampleCache.sample f) bracket cfg (.fresh cfg.tolerance hs s)).1 (samples f bracket cfg s) := by
  obtain ⟨hcourse, -⟩ := (Sampler.agree_recorded (SampleCache.sample f)).run (exploration bracket cfg)
    (.fresh cfg.tolerance hs s) (.start (.fresh cfg.tolerance hs s)) rfl trivial
  have hsamples : samples f bracket cfg s =
      (explore (Sampler.recorded (SampleCache.sample f)) bracket cfg
        (.start (.fresh cfg.tolerance hs s))).2.calls.reverse := by
    simp only [samples, hb, SampleCache.ofTolerance_of_step hs]
    rfl
  have h := explores_explore (SampleCache.sample f) cfg (Bracket.isFinite_of_isProper hb)
    (.fresh cfg.tolerance hs s)
  rw [← hsamples, explore_eq_run, ← hcourse, ← explore_eq_run] at h
  exact h

/-- The result of a bisection is that of a course of its samples. -/
theorem explores_samples (hb : bracket.isProper = true)
    (hs : isRoundingStep (SampleCache.stepFor cfg.tolerance.value) = true) :
    ∃ course evaluations hits, Explores bracket cfg course (samples f bracket cfg s) ∧
      (bisection f bracket cfg s).1.result = course.result bracket evaluations hits := by
  have hexplores := explores_fresh (f := f) (s := s) hb hs
  rw [explore_eq_run] at hexplores
  rw [bisection_of_step hb hs]
  exact ⟨_, _, _, hexplores, rfl⟩

structure Descent.IsReported (d : Descent) (bracket : Bracket) (fa : Float)
    (report : Report BisectionRecord) : Prop where
  status : d.ending.status = .ok report.status
  trace : report.trace = d.records
  root : (report.root, report.fRoot) = d.last bracket fa

/-- Halvings that are reported did not fail. -/
theorem Course.isReported_of_ok {fa : Float} {d : Descent} {evaluations hits : Nat}
    {report : Report BisectionRecord}
    (h : (Course.halved fa d).result bracket evaluations hits = .ok report) :
    d.IsReported bracket fa report := by
  rw [Course.result] at h
  cases hs : d.ending.status with
  | error e =>
    rw [hs] at h
    cases h
  | ok status =>
    rw [hs] at h
    cases h
    exact ⟨hs, rfl, rfl⟩

/-- A report is that of a course of the samples. -/
theorem explores_of_ok {report : Report BisectionRecord}
    (h : (bisection f bracket cfg s).1.result = .ok report) :
    ∃ course evaluations hits, Explores bracket cfg course (samples f bracket cfg s) ∧
      course.result bracket evaluations hits = .ok report := by
  obtain ⟨hb, hs⟩ := accepted_of_ok h
  obtain ⟨course, evaluations, hits, hexplores, hresult⟩ :=
    explores_samples (f := f) (s := s) hb hs
  exact ⟨course, evaluations, hits, hexplores, hresult.symm.trans h⟩

/-- A trace is that of halvings. -/
theorem halvings_of_trace {report : Report BisectionRecord}
    (h : (bisection f bracket cfg s).1.result = .ok report) (hne : report.trace ≠ []) :
    ∃ fa fb d calls, samples f bracket cfg s =
        ⟨bracket.left, .ok fa⟩ :: ⟨bracket.right, .ok fb⟩ :: calls ∧
      ¬ fa.abs < cfg.tolerance.value ∧ ¬ fb.abs < cfg.tolerance.value ∧ OppositeSigns fa fb ∧
      Halvings cfg.tolerance.value (cap bracket cfg).toNat 1 ⟨bracket, fa, fb⟩ d calls ∧
      d.IsReported bracket fa report := by
  obtain ⟨course, evaluations, hits, hexplores, hresult⟩ := explores_of_ok h
  generalize samples f bracket cfg s = calls at *
  cases hexplores with
  | leftFailed e => cases hresult
  | rightFailed fa e => cases hresult
  | leftSmall fa fb small =>
    cases hresult
    exact absurd rfl hne
  | rightSmall fa fb small =>
    cases hresult
    exact absurd rfl hne
  | noSignChange fa fb => cases hresult
  | narrow fa fb outcome opposite =>
    cases outcome with
    | error e => cases hresult
    | ok value =>
      cases hresult
      exact absurd rfl hne
  | halved fa fb d calls left right opposite halvings =>
    exact ⟨fa, fb, d, calls, rfl, left, right, opposite, halvings, Course.isReported_of_ok hresult⟩

end
end Bisection
end FormulaRoots
