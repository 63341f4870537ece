import FormulaRoots.Proofs.Solver.Counters
import Mathlib.Data.Nat.Basic
import Mathlib.Order.Basic

/-! Cycles of a fixed-point iteration. A step from a bucket that was visited before leads where the step of that
visit led, so a run that comes back to a bucket goes round until its steps are used up. -/
namespace FormulaRoots
open MemoTable Sampler

/-- From the record at `j` on, a trace goes on as it did from the record at `i` on, until its steps are used up.
The two records themselves may start at different points of one bucket. -/
structure Report.Cycles (report : Report FixedPointRecord) (tol : Float) (limit i j : Nat) : Prop where
  repeated : ∀ k, 1 ≤ k → j + k < limit → ∃ r r', report.trace[i + k]? = some r ∧
    report.trace[j + k]? = some r' ∧ r'.current = r.current ∧ r'.next = r.next ∧ r'.error = r.error
  long : ∀ (k : Nat) (r : FixedPointRecord), report.trace[j + k]? = some r → ¬ r.error < tol
  limit : report.terminationReason = .iterationLimit ∧ report.iterations = limit

namespace FixedPoint
open FixedPointRecord

section
variable {step : Float} {visits : List Visit} {records : List FixedPointRecord}

/-- Each record has its visit. -/
theorem exists_visit (hsamples : records.map call = visits.map Visit.sample) {m : Nat}
    {r : FixedPointRecord} (hr : records[m]? = some r) :
    ∃ v, visits[m]? = some v ∧ v.argument = r.current ∧ v.answer = .ok r.next := by
  have hm := congrArg (·[m]?) hsamples
  simp only [List.getElem?_map, hr, Option.map_some] at hm
  obtain ⟨v, hv, hsample⟩ := Option.map_eq_some_iff.mp hm.symm
  exact ⟨v, hv, congrArg Call.argument hsample, congrArg Call.outcome hsample⟩

private theorem next_eq_of_shared (h : History step visits)
    (hsamples : records.map call = visits.map Visit.sample)
    {m n : Nat} (hmn : m < n) {r r' : FixedPointRecord} (hr : records[m]? = some r)
    (hr' : records[n]? = some r') (shared : bucketOf step r'.current = bucketOf step r.current)
    (rounded : bucketOf step r.current ≠ none) :
    r'.next = r.next ∧ ∃ v, visits[n]? = some v ∧ v.calls = [] := by
  obtain ⟨v, hv, hargument, hanswer⟩ := exists_visit hsamples hr
  obtain ⟨w, hw, hargument', hanswer'⟩ := exists_visit hsamples hr'
  obtain ⟨bucket, hb⟩ := Option.ne_none_iff_exists'.mp rounded
  obtain ⟨hcalls, hrecalled⟩ := h.recalled_of_ok hmn hv hw (hargument ▸ hb)
    (hargument' ▸ shared.trans hb) hanswer
  exact ⟨Except.ok.inj (hanswer'.symm.trans hrecalled), w, hw, hcalls⟩

/-- Once two records share a bucket, all later ones do, at the same distance. -/
theorem shared_add (h : History step visits) (hsamples : records.map call = visits.map Visit.sample)
    (chained : ∀ (m : Nat) (r r' : FixedPointRecord), records[m]? = some r → records[m + 1]? = some r' →
      r'.current = r.next)
    {i j : Nat} (hij : i < j) {q q' : FixedPointRecord} (hi : records[i]? = some q)
    (hj : records[j]? = some q') (shared : bucketOf step q'.current = bucketOf step q.current)
    (rounded : ∀ (m : Nat) (r : FixedPointRecord), i ≤ m → m ≤ j → records[m]? = some r →
      bucketOf step r.current ≠ none)
    (k : Nat) {r r' : FixedPointRecord} (hr : records[i + k]? = some r) (hr' : records[j + k]? = some r') :
    bucketOf step r'.current = bucketOf step r.current ∧ bucketOf step r.current ≠ none ∧
      (1 ≤ k → r'.current = r.current) := by
  induction k using Nat.strong_induction_on generalizing r r' with
  | _ k ih =>
    have hbefore {m : Nat} (hm : m < j + k) : ∃ q, records[m]? = some q :=
      ⟨_, List.getElem?_eq_getElem (hm.trans (List.getElem?_eq_some_iff.mp hr').1)⟩
    cases k with
    | zero =>
      cases hi.symm.trans hr
      cases hj.symm.trans hr'
      exact ⟨shared, rounded i q le_rfl hij.le hi, nofun⟩
    | succ k =>
      obtain ⟨p, hp⟩ : ∃ p, records[i + k]? = some p := hbefore (by omega)
      obtain ⟨p', hp'⟩ : ∃ p', records[j + k]? = some p' := hbefore (by omega)
      obtain ⟨hshared, hrounded, -⟩ := ih k (Nat.lt_succ_self k) hp hp'
      have hcurrent : r'.current = r.current := by
        rw [chained _ p r hp hr, chained _ p' r' hp' hr']
        exact (next_eq_of_shared h hsamples (by omega) hp hp' hshared hrounded).1
      refine ⟨congrArg (bucketOf step) hcurrent, ?_, fun _ => hcurrent⟩
      by_cases hle : i + (k + 1) ≤ j
      · exact rounded _ r (Nat.le_add_right ..) hle hr
      · -- the record stands behind `j` itself, so it shares its bucket with one before it
        obtain ⟨m, hm⟩ := Nat.exists_eq_add_of_le (Nat.le_of_not_le hle)
        obtain ⟨back, hback⟩ : ∃ back, records[i + m]? = some back := hbefore (by omega)
        obtain ⟨hsame, hnone, -⟩ := ih m (by omega) hback (hm ▸ hr)
        rw [hsame]
        exact hnone

end

private theorem cycles_of_repeated {report : Report FixedPointRecord} {tol x0 : Float} {limit : Nat}
    {samples : List Call} (h : report.Recounts tol limit x0 samples) {i j : Nat} (hij : i < j)
    {last : FixedPointRecord} (hj : report.trace[j]? = some last) (long : ¬ last.error < tol)
    (repeated : ∀ (k : Nat) (r r' : FixedPointRecord), 1 ≤ k → report.trace[i + k]? = some r →
      report.trace[j + k]? = some r' → r'.current = r.current ∧ r'.next = r.next) :
    report.Cycles tol limit i j := by
  have hbefore {k : Nat} (hk : j + k < report.trace.length) : ∃ r, report.trace[i + k]? = some r :=
    ⟨_, List.getElem?_eq_getElem (Nat.lt_trans (Nat.add_lt_add_right hij k) hk)⟩
  have herror {k : Nat} {r r' : FixedPointRecord} (hk : 1 ≤ k) (hr : report.trace[i + k]? = some r)
      (hr' : report.trace[j + k]? = some r') : r'.error = r.error := by
    obtain ⟨hcurrent, hnext⟩ := repeated k r r' hk hr hr'
    rw [h.error r (List.mem_of_getElem? hr), h.error r' (List.mem_of_getElem? hr'), hcurrent, hnext]
  -- a record that repeats an earlier one is as long as that one, which is not the last
  have hlong (k : Nat) (r' : FixedPointRecord) (hr' : report.trace[j + k]? = some r') :
      ¬ r'.error < tol := by
    cases k with
    | zero => exact Option.some.inj (hj.symm.trans hr') ▸ long
    | succ k =>
      obtain ⟨hlt, -⟩ := List.getElem?_eq_some_iff.mp hr'
      obtain ⟨r, hr⟩ := hbefore hlt
      rw [herror (Nat.le_add_left ..) hr hr']
      intro hshort
      have hlast : i + (k + 1) + 1 = report.trace.length := h.short _ r hr hshort
      omega
  obtain ⟨hjlt, -⟩ := List.getElem?_eq_some_iff.mp hj
  obtain ⟨r, hr, -, -, -, hstatus⟩ := h.last
  rw [List.getLast?_eq_getElem?] at hr
  obtain ⟨k, hk⟩ := Nat.exists_eq_add_of_le (Nat.le_sub_one_of_lt hjlt)
  rw [if_neg (hlong k r (hk ▸ hr))] at hstatus
  obtain ⟨hreason, hstatus⟩ := Prod.mk.inj hstatus
  have hlimit : report.trace.length = limit := h.limit hstatus
  refine ⟨fun k hk hlt => ?_, hlong, hreason, hlimit⟩
  rw [← hlimit] at hlt
  obtain ⟨r, hr⟩ := hbefore hlt
  have hr' := List.getElem?_eq_getElem hlt
  obtain ⟨hcurrent, hnext⟩ := repeated k r _ hk hr hr'
  exact ⟨r, _, hr, hr', hcurrent, hnext, herror hk hr hr'⟩

/-- A run that comes back to a bucket goes round until its steps are used up: its records repeat those after the
first visit to the bucket, and the function is not called any more. -/
theorem cycles_of_revisit {σ : Type} (g : Sampler σ) (x0 : Float) (cfg : FixedPointConfig) (s : σ)
    (report : Report FixedPointRecord) (h : (fixedPoint g x0 cfg s).1.result = .ok report) {i j : Nat}
    (hij : i < j) {r r' : FixedPointRecord} (hi : report.trace[i]? = some r)
    (hj : report.trace[j]? = some r')
    (shared : bucketOf (cfg.tolerance.value * 0.01) r'.current =
      bucketOf (cfg.tolerance.value * 0.01) r.current)
    (rounded : ∀ (m : Nat) (r : FixedPointRecord), i ≤ m → m ≤ j → report.trace[m]? = some r →
      bucketOf (cfg.tolerance.value * 0.01) r.current ≠ none)
    (long : ¬ r'.error < cfg.tolerance.value) :
    report.Cycles cfg.tolerance.value cfg.maxIter i j ∧
    ∃ visits, Ledger (cfg.tolerance.value * 0.01) visits (samples g x0 cfg s)
        (calls g x0 cfg s) report.evaluations report.cacheHits ∧
      ∀ v ∈ visits.drop j, v.calls = [] := by
  obtain ⟨c, visits, evaluations, hits, hsteps, hresult, hledger⟩ :=
    steps_with_ledger g x0 s (accepted_of_ok h)
  have hreport := hresult.symm.trans h
  obtain ⟨-, rfl, rfl⟩ := Course.of_ok hreport
  have hrecounts := hsteps.recounts cfg.maxIter_pos (Course.isReported_of_ok hreport)
  have hvisits : report.trace.map call = visits.map Visit.sample :=
    hrecounts.samples_eq.symm.trans hledger.samples_eq
  have hshared (k : Nat) {q q' : FixedPointRecord} (hq : report.trace[i + k]? = some q)
      (hq' : report.trace[j + k]? = some q') :=
    shared_add hledger.history hvisits hrecounts.chained hij hi hj shared rounded k hq hq'
  have hnext (k : Nat) {q q' : FixedPointRecord} (hq : report.trace[i + k]? = some q)
      (hq' : report.trace[j + k]? = some q') := by
    obtain ⟨hsame, hrounded, -⟩ := hshared k hq hq'
    exact next_eq_of_shared hledger.history hvisits (Nat.add_lt_add_right hij k) hq hq' hsame hrounded
  refine ⟨cycles_of_repeated hrecounts hij hj long fun k q q' hk hq hq' => ?_, visits, hledger, ?_⟩
  · exact ⟨(hshared k hq hq').2.2 hk, (hnext k hq hq').1⟩
  · intro v hv
    obtain ⟨k, hk⟩ := List.mem_iff_getElem?.mp hv
    rw [List.getElem?_drop] at hk
    have hlength : visits.length = report.trace.length := by
      rw [← List.length_map Visit.sample, ← hvisits, List.length_map]
    obtain ⟨hlt, -⟩ := List.getElem?_eq_some_iff.mp hk
    rw [hlength] at hlt
    obtain ⟨w, hw, hcalls⟩ := (hnext k (List.getElem?_eq_getElem (by omega)) (List.getElem?_eq_getElem hlt)).2
    cases hk.symm.trans hw
    exact hcalls

/-- A function that gives 8 at first and then a point next to the start. Its second value falls into the bucket of
the start, so it is not asked a third time. -/
theorem cycles_of_revisit_neighbour :
    let g : Sampler Nat := fun _ n => (.ok (if n = 0 then 8.0 else 1.00390625), n + 1)
    let cfg : FixedPointConfig := ⟨⟨1.5625, by decide +kernel⟩, 6, by decide⟩
    let first : FixedPointRecord := ⟨1, 1.0, 8.0, 7.0⟩
    let there (n : Nat) : FixedPointRecord := ⟨n, 8.0, 1.00390625, 6.99609375⟩
    let back (n : Nat) : FixedPointRecord := ⟨n, 1.00390625, 8.0, 6.99609375⟩
    let report : Report FixedPointRecord := ⟨8.0, 1.00390625, 2, 4, .toleranceNotReached, .fixedPoint,
      [first, there 2, back 3, there 4, back 5, there 6]⟩
    let step := cfg.tolerance.value * 0.01
    (fixedPoint g 1.0 cfg 0).1.result = .ok report ∧
    bucketOf step (back 3).current = bucketOf step first.current ∧
    (∀ m r, 0 ≤ m → m ≤ 2 → report.trace[m]? = some r → bucketOf step r.current ≠ none) ∧
    ¬ (back 3).error < cfg.tolerance.value ∧ report.Cycles cfg.tolerance.value cfg.maxIter 0 2 ∧
    calls g 1.0 cfg 0 = [⟨1.0, .ok 8.0⟩, ⟨8.0, .ok 1.00390625⟩] := by
  intro g cfg first there back report step
  have hresult : (fixedPoint g 1.0 cfg 0).1.result = .ok report := ok_of_toOption (by decide +kernel)
  have hshared : bucketOf step (back 3).current = bucketOf step first.current := by decide +kernel
  have hrounded : ∀ r ∈ report.trace, bucketOf step r.current ≠ none := by decide +kernel
  have hlong : ¬ (back 3).error < cfg.tolerance.value := by decide +kernel
  have hbetween (m : Nat) (r : FixedPointRecord) (_ : 0 ≤ m) (_ : m ≤ 2) (hr : report.trace[m]? = some r) :
      bucketOf step r.current ≠ none := hrounded r (List.mem_of_getElem? hr)
  obtain ⟨hcycles, -⟩ :=
    cycles_of_revisit g 1.0 cfg 0 report hresult (by decide : 0 < 2) rfl rfl hshared hbetween hlong
  exact ⟨hresult, hshared, hbetween, hlong, hcycles, by decide +kernel⟩

end FixedPoint
end FormulaRoots
