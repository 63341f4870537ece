import FormulaRoots.Proofs.Memo.Calls
import Mathlib.Data.List.Nodup

/-! What a memo table has been asked. Each request leaves a visit, and what the table knows, and how often
it answered by itself, can be read off the visits. -/
namespace FormulaRoots
open MemoTable

structure Request (σ : Type) where
  argument : Float
  compute : Sampler σ

/-- What is seen of a request: its argument, the calls that its computation received, and the answer. -/
structure Visit where
  argument : Float
  calls : List Sampler.Call
  answer : Except DivisionByZero Float

namespace Visit

def computed? (v : Visit) : Option Float :=
  v.calls.head?.bind fun call => call.outcome.toOption

def lesson? (step : Float) (v : Visit) : Option (Float × Float) :=
  (bucketOf step v.argument).bind fun bucket => v.computed?.map fun value => (bucket, value)

def lessons (step : Float) (visits : List Visit) : List (Float × Float) :=
  visits.filterMap (lesson? step)

theorem lesson?_eq_some {step : Float} {v : Visit} {bucket value : Float} :
    v.lesson? step = some (bucket, value) ↔
      bucketOf step v.argument = some bucket ∧ v.computed? = some value := by
  rw [lesson?, Option.bind_eq_some_iff]
  constructor
  · rintro ⟨b, hb, hv⟩
    obtain ⟨w, hw, he⟩ := Option.map_eq_some_iff.mp hv
    cases he
    exact ⟨hb, hw⟩
  · rintro ⟨hb, hv⟩
    exact ⟨bucket, hb, Option.map_eq_some_iff.mpr ⟨value, hv, rfl⟩⟩

theorem mem_lessons {step : Float} {visits : List Visit} {bucket value : Float} :
    (bucket, value) ∈ lessons step visits ↔
      ∃ v ∈ visits, bucketOf step v.argument = some bucket ∧ v.computed? = some value := by
  simp only [lessons, List.mem_filterMap, lesson?_eq_some]

theorem lessons_append (step : Float) (visits : List Visit) (v : Visit) :
    lessons step (visits ++ [v]) = lessons step visits ++ (v.lesson? step).toList := by
  unfold lessons
  rw [List.filterMap_append]
  cases h : v.lesson? step with
  | none => simp only [List.filterMap_cons, h, List.filterMap_nil, Option.toList]
  | some lesson => simp only [List.filterMap_cons, h, List.filterMap_nil, Option.toList]

/-- The ways in which a visit can follow on earlier ones. -/
inductive Follows (step : Float) (earlier : List Visit) : Visit → Prop
  /-- Without a bucket the argument itself is computed. -/
  | bypassed {x : Float} {outcome : Except DivisionByZero Float} (bucket : bucketOf step x = none) :
      Follows step earlier ⟨x, [⟨x, outcome⟩], outcome⟩
  | computed {x bucket : Float} {outcome : Except DivisionByZero Float}
      (bucket_eq : bucketOf step x = some bucket) (new : ∀ value, (bucket, value) ∉ lessons step earlier) :
      Follows step earlier ⟨x, [⟨bucket, outcome⟩], outcome⟩
  | recalled {x bucket value : Float} (bucket_eq : bucketOf step x = some bucket)
      (known : (bucket, value) ∈ lessons step earlier) : Follows step earlier ⟨x, [], .ok value⟩

section
variable {step x bucket : Float}

theorem lesson?_bypassed (hb : bucketOf step x = none) (calls : List Sampler.Call)
    (answer : Except DivisionByZero Float) : lesson? step ⟨x, calls, answer⟩ = none := by
  simp only [lesson?, hb, Option.bind_none]

theorem lesson?_computed (hb : bucketOf step x = some bucket) (y : Float)
    (outcome : Except DivisionByZero Float) :
    lesson? step ⟨x, [⟨y, outcome⟩], outcome⟩ = outcome.toOption.map fun value => (bucket, value) := by
  simp only [lesson?, hb, Option.bind_some, computed?, List.head?_cons]

theorem lesson?_recalled (step x : Float) (answer : Except DivisionByZero Float) :
    lesson? step ⟨x, [], answer⟩ = none := by
  simp only [lesson?, computed?, List.head?_nil, Option.bind_none, Option.map_none,
    Option.bind_fun_none]

end

private theorem Follows.new_of_lesson {step : Float} {earlier : List Visit} {v : Visit}
    (h : v.Follows step earlier) {bucket value : Float} (hv : v.lesson? step = some (bucket, value))
    (other : Float) : (bucket, other) ∉ lessons step earlier := by
  cases h with
  | bypassed hb =>
    rw [lesson?_bypassed hb] at hv
    cases hv
  | recalled =>
    rw [lesson?_recalled] at hv
    cases hv
  | computed hb new =>
    obtain ⟨hbucket, -⟩ := lesson?_eq_some.mp hv
    obtain rfl := Option.some.inj (hb.symm.trans hbucket)
    exact new other

end Visit

open Visit

/-- The sequences of visits that a table can leave. -/
inductive History (step : Float) : List Visit → Prop
  | start : History step []
  | next {visits : List Visit} {v : Visit} (earlier : History step visits)
      (follows : v.Follows step visits) : History step (visits ++ [v])

namespace History
variable {step : Float} {visits : List Visit}

theorem follows (h : History step visits) {i : Nat} {v : Visit} (hv : visits[i]? = some v) :
    v.Follows step (visits.take i) := by
  induction h generalizing i with
  | start => cases hv
  | @next visits w earlier follows ih =>
    rcases Nat.lt_trichotomy i visits.length with hi | rfl | hi
    · rw [List.getElem?_append_left hi] at hv
      rw [List.take_append_of_le_length (Nat.le_of_lt hi)]
      exact ih hv
    · rw [List.getElem?_concat_length] at hv
      cases hv
      rw [List.take_left]
      exact follows
    · rw [List.getElem?_eq_none] at hv
      · cases hv
      · rw [List.length_append, List.length_singleton]
        exact hi

/-- No bucket is computed with success twice. -/
theorem lesson_unique (h : History step visits) {i j : Nat} {v w : Visit} (hv : visits[i]? = some v)
    (hw : visits[j]? = some w) {bucket value other : Float}
    (hlesson : v.lesson? step = some (bucket, value))
    (hlesson' : w.lesson? step = some (bucket, other)) : i = j := by
  have hbefore {i j : Nat} {v w : Visit} {value other : Float} (hv : visits[i]? = some v)
      (hw : visits[j]? = some w) (hlesson : v.lesson? step = some (bucket, value))
      (hlesson' : w.lesson? step = some (bucket, other)) : ¬ i < j := by
    intro hlt
    refine (h.follows hw).new_of_lesson hlesson' value (List.mem_filterMap.mpr ⟨v, ?_, hlesson⟩)
    rw [List.mem_iff_getElem?]
    exact ⟨i, (List.getElem?_take_of_lt hlt).trans hv⟩
  exact Nat.le_antisymm (Nat.le_of_not_lt (hbefore hw hv hlesson' hlesson))
    (Nat.le_of_not_lt (hbefore hv hw hlesson hlesson'))

/-- The buckets that were computed with success, each once. -/
theorem nodup (h : History step visits) : ((lessons step visits).map Prod.fst).Nodup := by
  induction h with
  | start => exact List.nodup_nil
  | @next visits v _ follows ih =>
    rw [lessons_append]
    cases hlesson : v.lesson? step with
    | none => rwa [Option.toList, List.append_nil]
    | some lesson =>
      obtain ⟨bucket, value⟩ := lesson
      rw [Option.toList, List.map_append, List.map_singleton, List.nodup_append]
      refine ⟨ih, List.nodup_singleton _, fun b hb b' hb' heq => ?_⟩
      obtain ⟨⟨b'', other⟩, hmem, rfl⟩ := List.mem_map.mp hb
      obtain rfl : b' = bucket := List.mem_singleton.mp hb'
      exact follows.new_of_lesson hlesson other (heq ▸ hmem)

private theorem value_unique (h : History step visits) {bucket value other : Float}
    (hvalue : (bucket, value) ∈ lessons step visits) (hother : (bucket, other) ∈ lessons step visits) :
    value = other :=
  congrArg Prod.snd (List.inj_on_of_nodup_map h.nodup hvalue hother rfl)

private theorem take (h : History step visits) (i : Nat) : History step (visits.take i) := by
  induction h with
  | start =>
    rw [List.take_nil]
    exact .start
  | @next visits v earlier follows ih =>
    by_cases hi : i ≤ visits.length
    · rw [List.take_append_of_le_length hi]
      exact ih
    · rw [List.take_of_length_le (by rw [List.length_append, List.length_singleton]; omega)]
      exact earlier.next follows

private theorem learnt_of_ok (h : History step visits) {i j : Nat} {v : Visit} (hij : i < j)
    (hv : visits[i]? = some v) {bucket value : Float} (hb : bucketOf step v.argument = some bucket)
    (hok : v.answer = .ok value) : (bucket, value) ∈ lessons step (visits.take j) := by
  cases h.follows hv with
  | bypassed hnone =>
    rw [hnone] at hb
    cases hb
  | computed hbucket =>
    cases hok
    obtain rfl := Option.some.inj (hbucket.symm.trans hb)
    exact mem_lessons.mpr ⟨_, List.mem_of_getElem? ((List.getElem?_take_of_lt hij).trans hv), hb, rfl⟩
  | recalled hbucket known =>
    cases hok
    obtain rfl := Option.some.inj (hbucket.symm.trans hb)
    exact ((List.take_sublist_take_left (Nat.le_of_lt hij)).filterMap _).subset known

/-- A bucket that has given a value gives it again, without a call. -/
theorem recalled_of_ok (h : History step visits) {i j : Nat} {v w : Visit} (hij : i < j)
    (hv : visits[i]? = some v) (hw : visits[j]? = some w) {bucket value : Float}
    (hb : bucketOf step v.argument = some bucket) (hb' : bucketOf step w.argument = some bucket)
    (hok : v.answer = .ok value) : w.calls = [] ∧ w.answer = .ok value := by
  have hlearnt := h.learnt_of_ok hij hv hb hok
  cases h.follows hw with
  | bypassed hnone =>
    rw [hnone] at hb'
    cases hb'
  | computed hbucket new =>
    obtain rfl := Option.some.inj (hbucket.symm.trans hb')
    exact absurd hlearnt (new value)
  | recalled hbucket known =>
    obtain rfl := Option.some.inj (hbucket.symm.trans hb')
    rw [(h.take j).value_unique hlearnt known]
    exact ⟨rfl, rfl⟩

end History

structure MemoTable.Remembers (t : MemoTable) (visits : List Visit) : Prop where
  history : History t.step visits
  entry_iff : ∀ (key : UInt64) (value : Float), t.entries[key]? = some value ↔
    ∃ bucket, (bucket, value) ∈ lessons t.step visits ∧ bucket.toBits = key
  size_eq : t.size = (lessons t.step visits).length
  hits_eq : t.hits = visits.countP fun v => v.calls.isEmpty
  misses_eq : t.misses = (visits.flatMap Visit.calls).length

namespace MemoTable
variable {σ : Type}

theorem remembers_ofStep (step : Float) (h : isRoundingStep step = true) :
    (ofStep step h).Remembers [] where
  history := .start
  entry_iff key value := by
    constructor
    · intro he
      simp [ofStep] at he
    · rintro ⟨bucket, hmem, -⟩
      cases hmem
  size_eq := rfl
  hits_eq := rfl
  misses_eq := rfl

section
variable {t : MemoTable} {visits : List Visit}

theorem Remembers.find?_iff (h : t.Remembers visits) (bucket value : Float) :
    t.find? bucket = some value ↔ (bucket, value) ∈ lessons t.step visits := by
  rw [find?, h.entry_iff]
  constructor
  · rintro ⟨b, hmem, hb⟩
    rwa [← Binary64.eq_of_toBits_eq hb]
  · intro hmem
    exact ⟨bucket, hmem, rfl⟩

theorem Remembers.unknown (h : t.Remembers visits) {bucket : Float} (hf : t.find? bucket = none)
    (value : Float) : (bucket, value) ∉ lessons t.step visits := by
  intro hmem
  rw [(h.find?_iff bucket value).mpr hmem] at hf
  cases hf

private theorem Remembers.of_no_lesson (h : t.Remembers visits) {v : Visit}
    (follows : v.Follows t.step visits)
    (hlesson : v.lesson? t.step = none) {t' : MemoTable} (hstep : t'.step = t.step)
    (hentries : t'.entries = t.entries)
    (hhits : t'.hits = t.hits + if v.calls.isEmpty then 1 else 0)
    (hmisses : t'.misses = t.misses + v.calls.length) : t'.Remembers (visits ++ [v]) where
  history := hstep ▸ h.history.next follows
  entry_iff key value := by
    rw [hentries, hstep, lessons_append, hlesson, Option.toList, List.append_nil]
    exact h.entry_iff key value
  size_eq := by
    rw [size, hentries, hstep, lessons_append, hlesson, Option.toList, List.append_nil]
    exact h.size_eq
  hits_eq := by rw [hhits, h.hits_eq, List.countP_append, List.countP_singleton]
  misses_eq := by
    rw [hmisses, h.misses_eq, List.flatMap_append, List.length_append, List.flatMap_singleton]

private theorem Remembers.store (h : t.Remembers visits) {x bucket : Float}
    (hb : bucketOf t.step x = some bucket) (hf : t.find? bucket = none) (value : Float) :
    (t.countMiss.store bucket value).Remembers (visits ++ [⟨x, [⟨bucket, .ok value⟩], .ok value⟩]) := by
  have hlessons : lessons t.step (visits ++ [⟨x, [⟨bucket, .ok value⟩], .ok value⟩]) =
      lessons t.step visits ++ [(bucket, value)] := by
    rw [lessons_append, lesson?_computed hb]
    rfl
  have habsent : t.entries.contains bucket.toBits = false := by
    rw [Std.TreeMap.contains_eq_isSome_getElem?]
    exact congrArg Option.isSome hf
  refine ⟨h.history.next (.computed hb (h.unknown hf)), fun key other => ?_, ?_, ?_, ?_⟩
  · change (t.entries.insert bucket.toBits value)[key]? = some other ↔ ∃ b, (b, other) ∈
      lessons t.step (visits ++ [⟨x, [⟨bucket, .ok value⟩], .ok value⟩]) ∧ b.toBits = key
    rw [hlessons, Std.TreeMap.getElem?_insert]
    simp only [Std.LawfulEqCmp.compare_eq_iff_eq, List.mem_append, List.mem_singleton, Prod.mk.injEq]
    by_cases hkey : bucket.toBits = key
    · rw [if_pos hkey]
      constructor
      · intro he
        cases he
        exact ⟨bucket, .inr ⟨rfl, rfl⟩, hkey⟩
      · rintro ⟨b, hmem | ⟨-, rfl⟩, hbits⟩
        · obtain rfl := Binary64.eq_of_toBits_eq (hbits.trans hkey.symm)
          exact absurd hmem (h.unknown hf other)
        · rfl
    · rw [if_neg hkey, h.entry_iff]
      constructor
      · rintro ⟨b, hmem, hbits⟩
        exact ⟨b, .inl hmem, hbits⟩
      · rintro ⟨b, hmem | ⟨rfl, -⟩, hbits⟩
        · exact ⟨b, hmem, hbits⟩
        · exact absurd hbits hkey
  · change (t.entries.insert bucket.toBits value).size = _
    rw [Std.TreeMap.size_insert, habsent]
    change t.size + 1 = (lessons t.step _).length
    rw [hlessons, List.length_append]
    exact congrArg (· + 1) h.size_eq
  · rw [List.countP_append]
    exact h.hits_eq
  · rw [List.flatMap_append, List.length_append]
    exact congrArg (· + 1) h.misses_eq

end
end MemoTable

/-- A table with the visits that it has had, and the state of the computations. -/
structure Run (σ : Type) where
  visits : List Visit
  table : MemoTable
  state : σ

namespace Run
variable {σ : Type}

def next (run : Run σ) (r : Request σ) : Run σ :=
  let (answer, table, recorded) :=
    run.table.getOrCompute (Sampler.recorded r.compute) r.argument (.start run.state)
  ⟨run.visits ++ [⟨r.argument, recorded.calls, answer⟩], table, recorded.state⟩

def after (run : Run σ) (requests : List (Request σ)) : Run σ :=
  requests.foldl next run

/-- One request: without a bucket its argument is computed, and otherwise the table decides. -/
theorem next_cases (run : Run σ) (r : Request σ) :
    (bucketOf run.table.step r.argument = none ∧
      run.next r =
        let o := r.compute r.argument run.state
        ⟨run.visits ++ [⟨r.argument, [⟨r.argument, o.1⟩], o.1⟩], run.table.countMiss, o.2⟩) ∨
    (∃ bucket value, bucketOf run.table.step r.argument = some bucket ∧
      run.table.find? bucket = some value ∧
      run.next r = ⟨run.visits ++ [⟨r.argument, [], .ok value⟩], run.table.countHit, run.state⟩) ∨
    (∃ bucket, bucketOf run.table.step r.argument = some bucket ∧ run.table.find? bucket = none ∧
      run.next r =
        let o := r.compute bucket run.state
        ⟨run.visits ++ [⟨r.argument, [⟨bucket, o.1⟩], o.1⟩], run.table.learn bucket o.1, o.2⟩) := by
  unfold next
  cases hb : run.table.bucket? r.argument with
  | none =>
    rw [getOrCompute_of_no_bucket hb]
    exact .inl ⟨hb, rfl⟩
  | some bucket =>
    cases hv : run.table.find? bucket with
    | some value =>
      rw [getOrCompute_of_found hb hv]
      exact .inr (.inl ⟨bucket, value, hb, hv, rfl⟩)
    | none =>
      rw [getOrCompute_of_absent hb hv]
      exact .inr (.inr ⟨bucket, hb, hv, rfl⟩)

/-- A request is answered as its visit says, and what the table knows keeps to the visits. -/
theorem remembers_next {run : Run σ} (h : run.table.Remembers run.visits) (r : Request σ) :
    (run.next r).table.Remembers (run.next r).visits := by
  rcases run.next_cases r with ⟨hb, hn⟩ | ⟨bucket, value, hb, hv, hn⟩ | ⟨bucket, hb, hv, hn⟩
  · rw [hn]
    exact h.of_no_lesson (.bypassed hb) (lesson?_bypassed hb _ _) rfl rfl rfl rfl
  · rw [hn]
    exact h.of_no_lesson (.recalled hb ((h.find?_iff bucket value).mp hv)) (lesson?_recalled ..)
      rfl rfl rfl rfl
  · rw [hn]
    simp only
    cases hc : (r.compute bucket run.state).1 with
    | ok value => exact h.store hb hv value
    | error e =>
      exact h.of_no_lesson (.computed hb (h.unknown hv)) (lesson?_computed hb ..) rfl rfl rfl rfl

theorem remembers_after {run : Run σ} (h : run.table.Remembers run.visits)
    (requests : List (Request σ)) :
    (run.after requests).table.Remembers (run.after requests).visits := by
  induction requests generalizing run with
  | nil => exact h
  | cons r requests ih => exact ih (remembers_next h r)

end Run
end FormulaRoots
