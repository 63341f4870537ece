import FormulaRoots.Proofs.Binary64.Magnitude
import FormulaRoots.Proofs.Memo.History
import FormulaRoots.Proofs.Memo.Holding
import Mathlib.Data.List.Dedup

/-! The law of a memo table: how it answers each of a sequence of requests, and what it has stored and
counted afterwards. -/
namespace FormulaRoots
open Binary64 MemoTable Visit

namespace MemoTable

private theorem bucketOf_zero {step x bucket : Float} (h : bucketOf step x = some bucket)
    (hzero : (bucket == 0.0) = true) : bucket = 0.0 := by
  simp only [bucketOf] at h
  split at h
  · cases h
  · have hb := Option.some.inj h
    by_cases hr : (roundAway (x / step) * step == 0.0) = true
    · rw [if_pos hr] at hb
      exact hb.symm
    · rw [if_neg hr] at hb
      rw [hb] at hr
      exact absurd hzero hr

private theorem isFinite_of_bucketOf {step x bucket : Float} (h : bucketOf step x = some bucket) :
    bucket.isFinite = true := by
  simp only [bucketOf] at h
  split at h
  · cases h
  · rename_i hfinite
    rw [← Option.some.inj h]
    split
    · rfl
    · simpa using hfinite

/-- Buckets that are equal as numbers are the same double. -/
theorem eq_of_beq_of_bucketOf {step x y b c : Float} (hb : bucketOf step x = some b)
    (hc : bucketOf step y = some c) (h : (b == c) = true) : b = c := by
  have hbf := isFinite_of_bucketOf hb
  have hcf := isFinite_of_bucketOf hc
  by_cases hzero : (b == 0.0) = true
  · have hczero : (c == 0.0) = true := by
      rw [beq_iff_steps (isNaN_of_isFinite hbf) (isNaN_of_isFinite hcf)] at h
      rw [beq_zero_iff (isNaN_of_isFinite hbf)] at hzero
      rw [beq_zero_iff (isNaN_of_isFinite hcf), ← h, hzero]
    rw [bucketOf_zero hb hzero, bucketOf_zero hc hczero]
  · exact eq_of_beq_of_ne_zero hbf hcf h hzero

private theorem Remembers.bucket_of_mem {t : MemoTable} {visits : List Visit} (h : t.Remembers visits)
    {key : UInt64} (hkey : key ∈ t.entries) :
    ∃ x bucket, bucketOf t.step x = some bucket ∧ bucket.toBits = key := by
  obtain ⟨bucket, hmem, hbits⟩ := (h.entry_iff key _).mp (Std.TreeMap.getElem?_eq_some_getElem hkey)
  obtain ⟨v, -, hb, -⟩ := mem_lessons.mp hmem
  exact ⟨v.argument, bucket, hb, hbits⟩

end MemoTable

/-- How a visit goes after earlier ones, if its computation is `compute` and finds the state `s`. -/
structure Visit.Obeys {σ : Type} (v : Visit) (step : Float) (earlier : List Visit)
    (compute : Sampler σ) (s : σ) : Prop where
  /-- The computation is called unless its bucket has been computed with success. -/
  called_iff : v.calls ≠ [] ↔ bucketOf step v.argument = none ∨
    ∀ e ∈ earlier, bucketOf step e.argument = bucketOf step v.argument → e.computed? = none
  /-- It is called once, at the bucket or else at the argument itself, and its outcome is the answer. -/
  called : v.calls ≠ [] → v.calls = [⟨representative step v.argument, v.answer⟩] ∧
    v.answer = (compute (representative step v.argument) s).1
  /-- Otherwise the answer is the value of the one computation that succeeded for the bucket. -/
  recalled : v.calls = [] → ∃ (j : Nat) (e : Visit) (value : Float), earlier[j]? = some e ∧
    bucketOf step e.argument = bucketOf step v.argument ∧ e.computed? = some value ∧
    v.answer = .ok value ∧
    ∀ (k : Nat) (e' : Visit), earlier[k]? = some e' →
      bucketOf step e'.argument = bucketOf step v.argument → e'.computed? ≠ none → k = j

namespace Run
variable {σ : Type}

private theorem visits_after (run : Run σ) (requests : List (Request σ)) :
    ∃ later, (run.after requests).visits = run.visits ++ later ∧ later.length = requests.length := by
  induction requests generalizing run with
  | nil => exact ⟨[], (List.append_nil _).symm, rfl⟩
  | cons r requests ih =>
    obtain ⟨later, hvisits, hlength⟩ := ih (run.next r)
    refine ⟨_, hvisits.trans (List.append_assoc ..), ?_⟩
    rw [List.singleton_append, List.length_cons, hlength, List.length_cons]

private theorem after_append (run : Run σ) (requests later : List (Request σ)) :
    run.after (requests ++ later) = (run.after requests).after later :=
  List.foldl_append

private theorem after_take_succ (run : Run σ) {requests : List (Request σ)} {i : Nat} {r : Request σ}
    (h : requests[i]? = some r) :
    run.after (requests.take (i + 1)) = (run.after (requests.take i)).next r := by
  rw [List.take_add_one, h, after_append]
  rfl

private theorem after_eq (run : Run σ) {requests : List (Request σ)} {i : Nat} {r : Request σ}
    (h : requests[i]? = some r) : run.after requests =
      ((run.after (requests.take i)).next r).after (requests.drop (i + 1)) := by
  rw [← run.after_take_succ h, ← after_append, List.take_append_drop]

theorem step_after (run : Run σ) (requests : List (Request σ)) :
    (run.after requests).table.step = run.table.step := by
  induction requests generalizing run with
  | nil => rfl
  | cons r requests ih =>
    refine (ih (run.next r)).trans ?_
    rcases run.next_cases r with ⟨-, hn⟩ | ⟨_, _, -, -, hn⟩ | ⟨bucket, -, -, hn⟩
    · rw [hn]
      rfl
    · rw [hn]
      rfl
    · rw [hn]
      exact step_learn ..

/-- Every request is counted. -/
theorem counts_after (run : Run σ) (requests : List (Request σ)) :
    (run.after requests).table.hits + (run.after requests).table.misses =
      run.table.hits + run.table.misses + requests.length := by
  induction requests generalizing run with
  | nil => rfl
  | cons r requests ih =>
    have hnext : (run.next r).table.hits + (run.next r).table.misses =
        run.table.hits + run.table.misses + 1 :=
      run.table.hits_add_misses_getOrCompute (Sampler.recorded r.compute) r.argument (.start run.state)
    refine (ih (run.next r)).trans ?_
    rw [hnext, List.length_cons]
    omega

/-- What is stored stays stored. -/
theorem kept_after {run : Run σ} (h : run.table.Remembers run.visits) (requests : List (Request σ))
    {key : UInt64} {value : Float} (hkey : run.table.entries[key]? = some value) :
    (run.after requests).table.entries[key]? = some value := by
  obtain ⟨bucket, hmem, hbits⟩ := (h.entry_iff key value).mp hkey
  refine ((remembers_after h requests).entry_iff key value).mpr ⟨bucket, ?_, hbits⟩
  obtain ⟨v, hv, hlesson⟩ := mem_lessons.mp hmem
  obtain ⟨later, hvisits, -⟩ := run.visits_after requests
  rw [step_after, hvisits]
  exact mem_lessons.mpr ⟨v, List.mem_append_left later hv, hlesson⟩

/-- The visit of a request obeys the law. -/
theorem obeys_next {run : Run σ} (h : run.table.Remembers run.visits) (r : Request σ) :
    ∃ v, (run.next r).visits = run.visits ++ [v] ∧ v.argument = r.argument ∧
      v.Obeys run.table.step run.visits r.compute run.state := by
  -- a bucket that the table does not find has not been computed with success
  have hnew {bucket : Float} (hb : bucketOf run.table.step r.argument = some bucket)
      (hf : run.table.find? bucket = none) (e : Visit) (he : e ∈ run.visits)
      (heq : bucketOf run.table.step e.argument = bucketOf run.table.step r.argument) :
      e.computed? = none := by
    cases hc : e.computed? with
    | none => rfl
    | some value => exact absurd (mem_lessons.mpr ⟨e, he, heq.trans hb, hc⟩) (h.unknown hf value)
  rcases run.next_cases r with ⟨hb, hn⟩ | ⟨bucket, value, hb, hv, hn⟩ | ⟨bucket, hb, hv, hn⟩
  · refine ⟨_, congrArg Run.visits hn, rfl, ?_, ?_, ?_⟩
    · exact ⟨fun _ => .inl hb, fun _ => List.cons_ne_nil _ _⟩
    · intro _
      rw [representative_of_none hb]
      exact ⟨rfl, rfl⟩
    · intro hnil
      cases hnil
  · obtain ⟨e, he, heb, hec⟩ := mem_lessons.mp ((h.find?_iff bucket value).mp hv)
    refine ⟨_, congrArg Run.visits hn, rfl, ?_, ?_, ?_⟩
    · constructor
      · intro hne
        exact absurd rfl hne
      · rintro (hnone | hall)
        · rw [hb] at hnone
          cases hnone
        · rw [hall e he (heb.trans hb.symm)] at hec
          cases hec
    · intro hne
      exact absurd rfl hne
    · intro _
      obtain ⟨j, hj⟩ := List.mem_iff_getElem?.mp he
      refine ⟨j, e, value, hj, heb.trans hb.symm, hec, rfl, fun k e' hk heb' hec' => ?_⟩
      obtain ⟨other, hother⟩ := Option.ne_none_iff_exists'.mp hec'
      exact h.history.lesson_unique hk hj (lesson?_eq_some.mpr ⟨heb'.trans hb, hother⟩)
        (lesson?_eq_some.mpr ⟨heb, hec⟩)
  · refine ⟨_, congrArg Run.visits hn, rfl, ?_, ?_, ?_⟩
    · exact ⟨fun _ => .inr (hnew hb hv), fun _ => List.cons_ne_nil _ _⟩
    · intro _
      rw [representative_of_some hb]
      exact ⟨rfl, rfl⟩
    · intro hnil
      cases hnil

private theorem table_next_of_error {run : Run σ} {r : Request σ} {v : Visit} {e : DivisionByZero}
    (hv : (run.next r).visits = run.visits ++ [v]) (he : v.answer = .error e) :
    (run.next r).table = { run.table with misses := run.table.misses + 1 } := by
  rcases run.next_cases r with ⟨-, hn⟩ | ⟨_, _, -, -, hn⟩ | ⟨bucket, -, -, hn⟩
  · rw [hn]
    rfl
  · rw [hn, List.append_cancel_left_eq, List.singleton_inj] at hv
    rw [← hv] at he
    cases he
  · rw [hn, List.append_cancel_left_eq, List.singleton_inj] at hv
    rw [← hv] at he
    rw [hn]
    simp only at he
    simp only [he]
    rfl

structure Accounts (start : Run σ) (step : Float) (requests : List (Request σ)) : Prop where
  length : (start.after requests).visits.length = requests.length
  obeys : ∀ (i : Nat) (r : Request σ), requests[i]? = some r →
    ∃ v, (start.after requests).visits[i]? = some v ∧ v.argument = r.argument ∧
      v.Obeys step ((start.after requests).visits.take i) r.compute
        (start.after (requests.take i)).state
  /-- Every request is counted, either as a hit or as a call of a computation. -/
  counted : (start.after requests).table.hits + (start.after requests).table.misses = requests.length
  misses : (start.after requests).table.misses =
    ((start.after requests).visits.flatMap Visit.calls).length
  /-- The table holds one value for each bucket that was computed with success. -/
  size : (start.after requests).table.size =
    ((lessons step (start.after requests).visits).map Prod.fst).dedup.length
  /-- What is stored at any time is stored for good. -/
  kept : ∀ (i : Nat) (key : UInt64) (value : Float),
    (start.after (requests.take i)).table.entries[key]? = some value →
      (start.after requests).table.entries[key]? = some value
  failed : ∀ (i : Nat) (v : Visit) (e : DivisionByZero),
    (start.after requests).visits[i]? = some v → v.answer = .error e →
      (start.after (requests.take (i + 1))).table =
        { (start.after (requests.take i)).table with
          misses := (start.after (requests.take i)).table.misses + 1 }
  keys : ∀ key ∈ (start.after requests).table.entries,
    ∀ key' ∈ (start.after requests).table.entries,
      (Float.ofBits key == Float.ofBits key') = true → key = key'
  zero : ∀ key ∈ (start.after requests).table.entries,
    (Float.ofBits key == 0.0) = true → key = (0.0 : Float).toBits

/-- A run that starts on an empty table keeps to the law. -/
theorem accounts_of_fresh {fresh : MemoTable} (h : fresh.Remembers []) (s : σ)
    (requests : List (Request σ)) : (Run.mk [] fresh s).Accounts fresh.step requests := by
  let start : Run σ := ⟨[], fresh, s⟩
  have hstep (rs : List (Request σ)) : (start.after rs).table.step = fresh.step := start.step_after rs
  have hremembers (rs : List (Request σ)) : (start.after rs).table.Remembers (start.after rs).visits :=
    remembers_after h rs
  have hlength (rs : List (Request σ)) : (start.after rs).visits.length = rs.length := by
    obtain ⟨later, hvisits, hlater⟩ := start.visits_after rs
    rw [hvisits]
    exact hlater
  -- the visit of the request at an index, and the visits before it
  have hvisit {i : Nat} {r : Request σ} (hr : requests[i]? = some r) {v : Visit}
      (hv : ((start.after (requests.take i)).next r).visits =
        (start.after (requests.take i)).visits ++ [v]) :
      (start.after requests).visits[i]? = some v ∧
        (start.after requests).visits.take i = (start.after (requests.take i)).visits := by
    obtain ⟨hi, -⟩ := List.getElem?_eq_some_iff.mp hr
    have htake : (start.after (requests.take i)).visits.length = i :=
      (hlength _).trans (List.length_take_of_le (Nat.le_of_lt hi))
    obtain ⟨later, hlater, -⟩ :=
      ((start.after (requests.take i)).next r).visits_after (requests.drop (i + 1))
    rw [← start.after_eq hr, hv, List.append_assoc] at hlater
    rw [hlater]
    constructor
    · rw [List.getElem?_append_right (Nat.le_of_eq htake), htake, Nat.sub_self]
      rfl
    · exact List.take_left' htake
  constructor
  case length => exact hlength requests
  case obeys =>
    intro i r hr
    obtain ⟨v, hv, hargument, hobeys⟩ := obeys_next (hremembers (requests.take i)) r
    obtain ⟨hi, htake⟩ := hvisit hr hv
    rw [htake, ← hstep (requests.take i)]
    exact ⟨v, hi, hargument, hobeys⟩
  case counted =>
    have hstart : start.table.hits + start.table.misses = 0 := by rw [h.hits_eq, h.misses_eq]; rfl
    exact (start.counts_after requests).trans (by rw [hstart, Nat.zero_add])
  case misses => exact (hremembers requests).misses_eq
  case size =>
    rw [← hstep requests, (hremembers requests).history.nodup.dedup, List.length_map]
    exact (hremembers requests).size_eq
  case kept =>
    intro i key value hkey
    have hkept := kept_after (hremembers (requests.take i)) (requests.drop i) hkey
    rwa [← after_append, List.take_append_drop] at hkept
  case failed =>
    intro i v e hv he
    obtain ⟨hi, -⟩ := List.getElem?_eq_some_iff.mp hv
    rw [hlength requests] at hi
    have hr := List.getElem?_eq_getElem hi
    obtain ⟨w, hw, -⟩ := obeys_next (hremembers (requests.take i)) requests[i]
    obtain rfl := Option.some.inj ((hvisit hr hw).1.symm.trans hv)
    rw [start.after_take_succ hr]
    exact table_next_of_error hw he
  case keys =>
    intro key hkey key' hkey' heq
    obtain ⟨x, b, hb, rfl⟩ := (hremembers requests).bucket_of_mem hkey
    obtain ⟨y, c, hc, rfl⟩ := (hremembers requests).bucket_of_mem hkey'
    rw [ofBits_toBits (isFinite_of_bucketOf hb), ofBits_toBits (isFinite_of_bucketOf hc)] at heq
    rw [eq_of_beq_of_bucketOf hb hc heq]
  case zero =>
    intro key hkey hzero
    obtain ⟨x, b, hb, rfl⟩ := (hremembers requests).bucket_of_mem hkey
    rw [ofBits_toBits (isFinite_of_bucketOf hb)] at hzero
    rw [bucketOf_zero hb hzero]

/-- A fresh table with a positive normal step keeps to the law, whatever is asked of it. -/
theorem accounts_of_step {step : Float} (hnormal : isNormal step = true) (hpos : 0.0 < step) :
    ∃ fresh, MemoTable.ofStep? step = some fresh ∧
      ∀ (s : σ) (requests : List (Request σ)), (Run.mk [] fresh s).Accounts step requests := by
  have hvalid : isRoundingStep step = true :=
    Bool.and_eq_true_iff.mpr ⟨hnormal, decide_eq_true hpos⟩
  exact ⟨ofStep step hvalid, dif_pos hvalid, accounts_of_fresh (remembers_ofStep step hvalid)⟩

/-- A bucket that fails at first, succeeds when it is asked again and then answers a neighbour. -/
theorem accounts_of_step_retried :
    let answers (outcome : Except DivisionByZero Float) : Sampler Nat := fun _ n => (outcome, n + 1)
    let requests : List (Request Nat) := [⟨1.0, answers (.error ⟨0⟩)⟩, ⟨1.0, answers (.ok 2.0)⟩,
      ⟨0.875, answers (.ok 3.0)⟩, ⟨(0.0 / 0.0), answers (.ok 4.0)⟩]
    isNormal 0.75 = true ∧ (0.0 : Float) < 0.75 ∧ ∃ fresh, MemoTable.ofStep? 0.75 = some fresh ∧
      (Run.mk [] fresh 0).Accounts 0.75 requests ∧
      let table := ((Run.mk [] fresh 0).after requests).table
      (table.hits, table.misses, table.size) = (1, 3, 1) := by
  intro answers requests
  have hnormal : isNormal 0.75 = true := by decide +kernel
  have hpos : (0.0 : Float) < 0.75 := by decide +kernel
  obtain ⟨fresh, hfresh, haccounts⟩ := accounts_of_step (σ := Nat) hnormal hpos
  refine ⟨hnormal, hpos, fresh, hfresh, haccounts 0 requests, ?_⟩
  obtain rfl : ofStep 0.75 (by decide +kernel) = fresh :=
    Option.some.inj ((dif_pos (by decide +kernel)).symm.trans hfresh)
  decide +kernel

end Run
end FormulaRoots
