import FormulaRoots.Proofs.Solver.Course

/-! What a report tells of a bisection. Its trace records every halving, from the given interval to the
one that ended the run, and its status is the reason why there was no further one. -/
namespace FormulaRoots

namespace Span

theorem after_append (s : Span) (l m : List BisectionRecord) : s.after (l ++ m) = (s.after l).after m :=
  List.foldl_append

private theorem after_take_succ (s : Span) {records : List BisectionRecord} {i : Nat}
    {r : BisectionRecord}
    (h : records[i]? = some r) : s.after (records.take (i + 1)) = (s.after (records.take i)).next r := by
  rw [List.take_add_one, h, after_append]
  rfl

structure IsSampled (s : Span) (calls : List Sampler.Call) : Prop where
  left : ⟨s.bracket.left, .ok s.fLeft⟩ ∈ calls
  right : ⟨s.bracket.right, .ok s.fRight⟩ ∈ calls

private theorem IsSampled.next {s : Span} {calls : List Sampler.Call} (h : s.IsSampled calls)
    (iteration : Nat) {fMid : Float} (hmid : ⟨s.bracket.midpoint, .ok fMid⟩ ∈ calls) :
    (s.next (.ofBracket iteration s.bracket fMid)).IsSampled calls := by
  unfold Span.next
  split
  · exact ⟨h.left, hmid⟩
  · exact ⟨hmid, h.right⟩

end Span

structure BisectionRecord.IsOf (r : BisectionRecord) (tol : Float) (number : Nat) (span : Span) :
    Prop where
  iteration : r.iteration = number
  bracket : r.bracket = span.bracket
  midpoint : r.midpoint = r.left + (r.right - r.left) / 2.0
  error : r.error = r.right - r.left
  wide : tol < r.error

private theorem BisectionRecord.isOf_ofBracket {tol : Float} (number : Nat) {span : Span} (fMid : Float)
    (h : tol < span.bracket.width) : (ofBracket number span.bracket fMid).IsOf tol number span :=
  ⟨rfl, rfl, rfl, rfl, h⟩

namespace Bisection
variable {tol : Float} {budget iteration : Nat} {span : Span} {d : Descent} {calls : List Sampler.Call}

/-- Without a failure every sample has its record. -/
theorem Halvings.calls_eq (h : Halvings tol budget iteration span d calls) {status : ToleranceStatus}
    (hd : d.ending.status = .ok status) : calls = d.records.map BisectionRecord.call := by
  induction h with
  | capReached => rfl
  | narrow => rfl
  | failed e => cases hd
  | smallValue fMid => rfl
  | halved fMid _ _ _ ih =>
    rw [ih hd]
    rfl

theorem Halvings.length_calls_le (h : Halvings tol budget iteration span d calls) :
    calls.length ≤ budget := by
  induction h with
  | capReached => exact Nat.le_refl _
  | narrow => exact Nat.zero_le _
  | failed e => exact Nat.succ_le_succ (Nat.zero_le _)
  | smallValue fMid => exact Nat.succ_le_succ (Nat.zero_le _)
  | halved fMid _ _ _ ih => exact Nat.succ_le_succ ih

/-- The records are those of the halvings, in their order. -/
theorem Halvings.isOf (h : Halvings tol budget iteration span d calls) {i : Nat} {r : BisectionRecord}
    (hr : d.records[i]? = some r) :
    r.IsOf tol (iteration + i) (span.after (d.records.take i)) := by
  induction h generalizing i with
  | capReached => cases hr
  | narrow => cases hr
  | failed e => cases hr
  | smallValue fMid wide =>
    cases i with
    | zero =>
      cases hr
      exact BisectionRecord.isOf_ofBracket _ fMid wide
    | succ i => cases hr
  | halved fMid wide _ _ ih =>
    cases i with
    | zero =>
      cases hr
      exact BisectionRecord.isOf_ofBracket _ fMid wide
    | succ i =>
      rw [← Nat.add_assoc, Nat.add_right_comm]
      exact ih hr

/-- A small value ends the run. -/
theorem Halvings.last_of_small (h : Halvings tol budget iteration span d calls) {i : Nat}
    {r : BisectionRecord} (hr : d.records[i]? = some r) (hsmall : r.fMid.abs < tol) :
    i + 1 = d.records.length := by
  induction h generalizing i with
  | capReached => cases hr
  | narrow => cases hr
  | failed e => cases hr
  | smallValue fMid =>
    cases i with
    | zero => rfl
    | succ i => cases hr
  | halved fMid _ large _ ih =>
    cases i with
    | zero =>
      cases hr
      exact absurd hsmall large
    | succ i => exact congrArg (· + 1) (ih hr)

private theorem Halvings.isSampled_of_subset (h : Halvings tol budget iteration span d calls)
    {all : List Sampler.Call}
    (hspan : span.IsSampled all) (hcalls : ∀ call ∈ calls, call ∈ all) (i : Nat) :
    (span.after (d.records.take i)).IsSampled all := by
  induction h generalizing i with
  | capReached => rwa [List.take_nil]
  | narrow => rwa [List.take_nil]
  | failed e => rwa [List.take_nil]
  | smallValue fMid =>
    cases i with
    | zero => exact hspan
    | succ i =>
      rw [List.take_succ_cons, List.take_nil]
      exact hspan.next _ (hcalls _ List.mem_cons_self)
  | halved fMid _ _ _ ih =>
    cases i with
    | zero => exact hspan
    | succ i =>
      refine ih (hspan.next _ (hcalls _ List.mem_cons_self)) (fun call hcall => ?_) i
      exact hcalls call (List.mem_cons_of_mem _ hcall)

/-- The values at the ends of every bracket are found among the samples. -/
theorem Halvings.isSampled (h : Halvings tol budget iteration span d calls) (i : Nat) :
    (span.after (d.records.take i)).IsSampled (⟨span.bracket.left, .ok span.fLeft⟩ ::
      ⟨span.bracket.right, .ok span.fRight⟩ :: calls) := by
  refine h.isSampled_of_subset ⟨?_, ?_⟩ (fun call hcall => ?_) i
  · exact List.mem_cons_self
  · exact List.mem_cons_of_mem _ List.mem_cons_self
  · exact List.mem_cons_of_mem _ (List.mem_cons_of_mem _ hcall)

def Ending.Fits (tol : Float) (budget : Nat) (records : List BisectionRecord) (last : Span) :
    Ending → Prop
  | smallValue => ∃ r, records.getLast? = some r ∧ r.fMid.abs < tol
  | narrow => (∀ r ∈ records, ¬ r.fMid.abs < tol) ∧ last.bracket.width ≤ tol
  | capReached =>
    (∀ r ∈ records, ¬ r.fMid.abs < tol) ∧ tol < last.bracket.width ∧ records.length = budget
  | failed _ => True

private theorem Ending.Fits.cons {ending : Ending} {records : List BisectionRecord} {last : Span}
    (h : ending.Fits tol budget records last) {r : BisectionRecord} (hr : ¬ r.fMid.abs < tol) :
    ending.Fits tol (budget + 1) (r :: records) last := by
  cases ending with
  | smallValue =>
    obtain ⟨r', hlast, hsmall⟩ := h
    refine ⟨r', ?_, hsmall⟩
    rw [List.getLast?_cons, hlast]
    rfl
  | narrow => exact ⟨List.forall_mem_cons.mpr ⟨hr, h.1⟩, h.2⟩
  | capReached => exact ⟨List.forall_mem_cons.mpr ⟨hr, h.1⟩, h.2.1, congrArg (· + 1) h.2.2⟩
  | failed e => trivial

theorem Halvings.fits (h : Halvings tol budget iteration span d calls) :
    d.ending.Fits tol budget d.records (span.after d.records) := by
  induction h with
  | capReached wide => exact ⟨List.forall_mem_nil _, wide, rfl⟩
  | narrow narrow => exact ⟨List.forall_mem_nil _, narrow⟩
  | failed e => trivial
  | smallValue fMid _ small => exact ⟨_, rfl, small⟩
  | halved fMid _ large _ ih => exact ih.cons large

private theorem Ending.Fits.status_eq {ending : Ending} {records : List BisectionRecord} {last : Span}
    (h : ending.Fits tol budget records last) {r : BisectionRecord} (hr : records.getLast? = some r)
    {status : ToleranceStatus} (hs : ending.status = .ok status) :
    status = if r.fMid.abs < tol then .absFxReached
      else if last.bracket.right - last.bracket.left ≤ tol then .widthTolReached
      else .toleranceNotReached := by
  have hmem : r ∈ records := List.mem_of_getLast? hr
  cases ending with
  | smallValue =>
    obtain ⟨r', hlast, hsmall⟩ := h
    cases hs
    cases hr.symm.trans hlast
    rw [if_pos hsmall]
  | narrow =>
    cases hs
    rw [if_neg (h.1 r hmem)]
    exact (if_pos h.2).symm
  | capReached =>
    cases hs
    rw [if_neg (h.1 r hmem)]
    exact (if_neg (Binary64.not_le_of_lt h.2.1)).symm
  | failed e => cases hs

theorem Ending.Fits.of_narrow {ending : Ending} {records : List BisectionRecord} {last : Span}
    (h : ending.Fits tol budget records last) (hs : ending.status = .ok .widthTolReached) :
    (∀ r ∈ records, ¬ r.fMid.abs < tol) ∧ last.bracket.width ≤ tol := by
  cases ending with
  | narrow => exact h
  | smallValue => cases hs
  | capReached => cases hs
  | failed e => cases hs

private theorem Ending.Fits.length_eq {ending : Ending} {records : List BisectionRecord} {last : Span}
    (h : ending.Fits tol budget records last) (hs : ending.status = .ok .toleranceNotReached) :
    records.length = budget := by
  cases ending with
  | capReached => exact h.2.2
  | smallValue => cases hs
  | narrow => cases hs
  | failed e => cases hs

end Bisection

structure Report.Documents (report : Report BisectionRecord) (tol : Float) (cap : Nat) (start : Span)
    (samples : List Sampler.Call) : Prop where
  /-- The ends are sampled first, and then the midpoints in the order of the trace. -/
  samples_eq : samples = ⟨start.bracket.left, .ok start.fLeft⟩ ::
    ⟨start.bracket.right, .ok start.fRight⟩ :: report.trace.map BisectionRecord.call
  iteration : ∀ (i : Nat) (r : BisectionRecord), report.trace[i]? = some r → r.iteration = i + 1
  midpoint : ∀ r ∈ report.trace, r.midpoint = r.left + (r.right - r.left) / 2.0
  error : ∀ r ∈ report.trace, r.error = r.right - r.left ∧ tol < r.error
  first : ∀ r ∈ report.trace.head?, r.bracket = start.bracket
  /-- A halving keeps the left half if the value sampled at the left end and the value at the midpoint
  have opposite signs, and the right half otherwise. -/
  next : ∀ (i : Nat) (r r' : BisectionRecord), report.trace[i]? = some r → report.trace[i + 1]? = some r' →
    r'.bracket = if OppositeSigns (start.after (report.trace.take i)).fLeft r.fMid
      then ⟨r.left, r.midpoint⟩ else ⟨r.midpoint, r.right⟩
  /-- The values at the ends of a recorded bracket are those that were sampled there. -/
  sampled : ∀ (i : Nat) (r : BisectionRecord), report.trace[i]? = some r →
    r.bracket = (start.after (report.trace.take i)).bracket ∧
      (start.after (report.trace.take i)).IsSampled samples
  /-- Only the last value may be small. -/
  small : ∀ (i : Nat) (r : BisectionRecord), report.trace[i]? = some r → r.fMid.abs < tol →
    i + 1 = report.trace.length
  iterations_le : report.iterations ≤ cap
  root : ∀ r ∈ report.trace.getLast?, report.root = r.midpoint ∧ report.fRoot = r.fMid
  /-- The last value, the bracket after the last halving and the cap decide, in this order. -/
  status : ∀ r ∈ report.trace.getLast?, let last := (start.after report.trace).bracket
    (report.terminationReason, report.status) =
      if r.fMid.abs < tol then (.toleranceReached, .absFxReached)
      else if last.right - last.left ≤ tol then (.toleranceReached, .widthTolReached)
      else (.iterationLimit, .toleranceNotReached)
  limit : report.status = .toleranceNotReached → report.iterations = cap

namespace Bisection
variable {σ : Type}

/-- The report on halvings documents them. -/
theorem Halvings.documents {tol : Float} {cap : Nat} {start : Span} {d : Descent}
    {calls : List Sampler.Call} (h : Halvings tol cap 1 start d calls) {report : Report BisectionRecord}
    (hreport : d.IsReported start.bracket start.fLeft report) :
    report.Documents tol cap start (⟨start.bracket.left, .ok start.fLeft⟩ ::
      ⟨start.bracket.right, .ok start.fRight⟩ :: calls) := by
  obtain ⟨hs, htrace, hlast⟩ := hreport
  have hcalls := h.calls_eq hs
  have hmem {r : BisectionRecord} (hr : r ∈ d.records) : ∃ number span, r.IsOf tol number span := by
    obtain ⟨i, hi⟩ := List.mem_iff_getElem?.mp hr
    exact ⟨_, _, h.isOf hi⟩
  constructor
  case samples_eq => rw [hcalls, htrace]
  case iteration =>
    rw [htrace]
    intro i r hr
    exact (h.isOf hr).iteration.trans (Nat.add_comm 1 i)
  case midpoint =>
    rw [htrace]
    intro r hr
    obtain ⟨number, span, hof⟩ := hmem hr
    exact hof.midpoint
  case error =>
    rw [htrace]
    intro r hr
    obtain ⟨number, span, hof⟩ := hmem hr
    exact ⟨hof.error, hof.wide⟩
  case first =>
    rw [htrace, List.head?_eq_getElem?]
    intro r hr
    exact (h.isOf hr).bracket
  case next =>
    rw [htrace]
    intro i r r' hr hr'
    rw [(h.isOf hr').bracket, start.after_take_succ hr, Span.next, apply_ite Span.bracket]
  case sampled =>
    rw [htrace]
    intro i r hr
    exact ⟨(h.isOf hr).bracket, h.isSampled i⟩
  case small =>
    rw [htrace]
    intro i r hr hsmall
    exact h.last_of_small hr hsmall
  case iterations_le =>
    have hlength := h.length_calls_le
    rwa [hcalls, List.length_map, ← htrace] at hlength
  case root =>
    rw [htrace]
    intro r hr
    rw [Descent.last, hr] at hlast
    exact ⟨congrArg Prod.fst hlast, congrArg Prod.snd hlast⟩
  case status =>
    rw [htrace]
    intro r hr last
    rw [Report.terminationReason, h.fits.status_eq hr hs]
    split
    · rfl
    · split <;> rfl
  case limit =>
    intro hlimit
    rw [hlimit] at hs
    rw [Report.iterations, htrace]
    exact h.fits.length_eq hs

/-- A report with a trace documents the run that it is about. -/
theorem report_documents (f : Sampler σ) (bracket : Bracket) (cfg : BisectionConfig) (s : σ)
    (report : Report BisectionRecord) (h : (bisection f bracket cfg s).1.result = .ok report)
    (hne : report.trace ≠ []) :
    ∃ fa fb, report.Documents cfg.tolerance.value
      (iterationCap bracket.left bracket.right cfg.tolerance.value cfg.safetyMargin).toNat
      ⟨bracket, fa, fb⟩ (samples f bracket cfg s) := by
  obtain ⟨fa, fb, d, calls, hsamples, -, -, -, halvings, hreport⟩ := halvings_of_trace h hne
  rw [hsamples]
  exact ⟨fa, fb, halvings.documents hreport⟩

/-- The search for the square root of 2, with a function that counts its calls. -/
theorem report_documents_counting :
    let f : Sampler Nat := fun x n => (.ok (x * x - 2.0), n + 1)
    let cfg : BisectionConfig := ⟨⟨0.125, by decide +kernel⟩, 10⟩
    let report : Report BisectionRecord := ⟨1.375, -0.109375, 5, 0, .absFxReached, .bisection,
      [⟨1, 1.0, 2.0, 1.5, 0.25, 1.0⟩, ⟨2, 1.0, 1.5, 1.25, -0.4375, 0.5⟩,
        ⟨3, 1.25, 1.5, 1.375, -0.109375, 0.25⟩]⟩
    (bisection f ⟨1.0, 2.0⟩ cfg 0).1.result = .ok report ∧ report.trace ≠ [] ∧
    ∃ fa fb, report.Documents cfg.tolerance.value
      (iterationCap 1.0 2.0 cfg.tolerance.value cfg.safetyMargin).toNat
      ⟨⟨1.0, 2.0⟩, fa, fb⟩ (samples f ⟨1.0, 2.0⟩ cfg 0) := by
  intro f cfg report
  have hresult : (bisection f ⟨1.0, 2.0⟩ cfg 0).1.result = .ok report :=
    ok_of_toOption (by decide +kernel)
  have hne : report.trace ≠ [] := by decide
  exact ⟨hresult, hne, report_documents f ⟨1.0, 2.0⟩ cfg 0 report hresult hne⟩

end Bisection
end FormulaRoots
