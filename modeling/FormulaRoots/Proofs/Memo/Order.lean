import FormulaRoots.Proofs.Memo.Accounts
import FormulaRoots.Proofs.Solver.Inquiries
import Mathlib.Data.List.Perm.Basic

/-! The order of samples. A cache for a function whose outcome depends on its argument alone gives the
same outcomes and makes as many calls in whatever order it is asked. -/
namespace FormulaRoots
open Binary64 MemoTable Visit

def Sampler.each {σ : Type} (f : Sampler σ) :
    List Float → σ → List (Except DivisionByZero Float) × σ
  | [], s => ([], s)
  | x :: xs, s =>
    let (outcome, s) := f x s
    let (outcomes, s) := f.each xs s
    (outcome :: outcomes, s)

section
variable (step : Float) (g : Float → Except DivisionByZero Float)

def MemoTable.goodBucket? (x : Float) : Option Float :=
  (bucketOf step x).filter fun bucket => (g bucket).toOption.isSome

def MemoTable.goodBuckets (xs : List Float) : List Float :=
  (xs.filterMap (goodBucket? step g)).dedup

/-- Where `g` is called for those of the arguments for which no value can be stored. -/
def MemoTable.unstored (xs : List Float) : List Float :=
  (xs.filter fun x => (goodBucket? step g x).isNone).map (representative step)

def Visit.Pure (v : Visit) : Prop :=
  ∀ call ∈ v.calls, call.outcome = g call.argument

end

namespace MemoTable
variable {step : Float} {g : Float → Except DivisionByZero Float}

private theorem goodBucket?_eq_some {x bucket : Float} : goodBucket? step g x = some bucket ↔
    bucketOf step x = some bucket ∧ ∃ value, g bucket = .ok value := by
  rw [goodBucket?, Option.filter_eq_some_iff, isSome_toOption_iff]

private theorem unstored_of_some {x bucket : Float} (h : goodBucket? step g x = some bucket) :
    unstored step g [x] = [] := by
  rw [unstored, List.filter_singleton, h]
  rfl

private theorem unstored_of_none {x : Float} (h : goodBucket? step g x = none) :
    unstored step g [x] = [representative step x] := by
  rw [unstored, List.filter_singleton, h]
  rfl

private theorem unstored_eq_flatMap (xs : List Float) :
    unstored step g xs = xs.flatMap fun x => unstored step g [x] := by
  induction xs with
  | nil => rfl
  | cons x xs ih =>
    rw [List.flatMap_cons, ← ih, unstored, ← List.singleton_append, List.filter_append, List.map_append]
    rfl

end MemoTable

namespace History
variable {step : Float} {g : Float → Except DivisionByZero Float} {visits : List Visit}

private theorem visit_cases (h : History step visits) (hpure : ∀ v ∈ visits, v.Pure g) {v : Visit}
    (hv : v ∈ visits) :
    (∃ x, bucketOf step x = none ∧ v = ⟨x, [⟨x, g x⟩], g x⟩) ∨
    (∃ x bucket, bucketOf step x = some bucket ∧ v = ⟨x, [⟨bucket, g bucket⟩], g bucket⟩) ∨
    (∃ x bucket value, bucketOf step x = some bucket ∧ (bucket, value) ∈ lessons step visits ∧
      v = ⟨x, [], .ok value⟩) := by
  obtain ⟨i, hi⟩ := List.mem_iff_getElem?.mp hv
  have hcalls := hpure v hv
  cases h.follows hi with
  | @bypassed x outcome hb =>
    obtain rfl : outcome = g x := hcalls _ (List.mem_singleton_self _)
    exact .inl ⟨x, hb, rfl⟩
  | @computed x bucket outcome hb =>
    obtain rfl : outcome = g bucket := hcalls _ (List.mem_singleton_self _)
    exact .inr (.inl ⟨x, bucket, hb, rfl⟩)
  | recalled hb known =>
    obtain ⟨e, he, hlesson⟩ := mem_lessons.mp known
    exact .inr (.inr ⟨_, _, _, hb, mem_lessons.mpr ⟨e, List.mem_of_mem_take he, hlesson⟩, rfl⟩)

private theorem value_of_lesson (h : History step visits) (hpure : ∀ v ∈ visits, v.Pure g)
    {bucket value : Float} (hmem : (bucket, value) ∈ lessons step visits) : g bucket = .ok value := by
  obtain ⟨v, hv, hb, hc⟩ := mem_lessons.mp hmem
  rcases h.visit_cases hpure hv with ⟨x, hnone, rfl⟩ | ⟨x, b, hsome, rfl⟩ | ⟨x, b, w, -, -, rfl⟩
  · rw [hnone] at hb
    cases hb
  · obtain rfl := Option.some.inj (hsome.symm.trans hb)
    exact ok_of_toOption hc
  · cases hc

private theorem bucket_of_lesson_iff (h : History step visits) (hpure : ∀ v ∈ visits, v.Pure g)
    (bucket : Float) : bucket ∈ (lessons step visits).map Prod.fst ↔
      bucket ∈ (visits.map Visit.argument).filterMap (goodBucket? step g) := by
  rw [List.mem_filterMap]
  constructor
  · intro hmem
    obtain ⟨⟨_, value⟩, hlesson, rfl⟩ := List.mem_map.mp hmem
    obtain ⟨v, hv, hb, -⟩ := mem_lessons.mp hlesson
    exact ⟨v.argument, List.mem_map_of_mem hv,
      goodBucket?_eq_some.mpr ⟨hb, value, h.value_of_lesson hpure hlesson⟩⟩
  · rintro ⟨x, hx, hgood⟩
    obtain ⟨hb, value, hg⟩ := goodBucket?_eq_some.mp hgood
    obtain ⟨v, hv, rfl⟩ := List.mem_map.mp hx
    rcases h.visit_cases hpure hv with
      ⟨x, hnone, rfl⟩ | ⟨x, b, hsome, rfl⟩ | ⟨x, b, w, hsome, known, rfl⟩
    · rw [hnone] at hb
      cases hb
    · obtain rfl := Option.some.inj (hsome.symm.trans hb)
      have hlesson := mem_lessons.mpr ⟨_, hv, hsome, congrArg Except.toOption hg⟩
      exact List.mem_map.mpr ⟨(b, value), hlesson, rfl⟩
    · obtain rfl := Option.some.inj (hsome.symm.trans hb)
      exact List.mem_map.mpr ⟨(b, w), known, rfl⟩

/-- Every answer is that of `g` at the representative of the argument. -/
theorem answer_eq (h : History step visits) (hpure : ∀ v ∈ visits, v.Pure g) {v : Visit}
    (hv : v ∈ visits) : v.answer = g (representative step v.argument) := by
  rcases h.visit_cases hpure hv with ⟨x, hb, rfl⟩ | ⟨x, b, hb, rfl⟩ | ⟨x, b, value, hb, known, rfl⟩
  · rw [representative_of_none hb]
  · rw [representative_of_some hb]
  · rw [representative_of_some hb]
    exact (h.value_of_lesson hpure known).symm

/-- A visit calls at the bucket that it learns, or else where no value can be stored. -/
theorem calls_eq (h : History step visits) (hpure : ∀ v ∈ visits, v.Pure g) {v : Visit}
    (hv : v ∈ visits) : v.calls.map Sampler.Call.argument =
      ((v.lesson? step).map Prod.fst).toList ++ unstored step g [v.argument] := by
  rcases h.visit_cases hpure hv with ⟨x, hb, rfl⟩ | ⟨x, b, hb, rfl⟩ | ⟨x, b, value, hb, known, rfl⟩
  · have hbad : goodBucket? step g x = none := by
      rw [goodBucket?, hb]
      rfl
    rw [lesson?_bypassed hb, unstored_of_none hbad, representative_of_none hb]
    rfl
  · rw [lesson?_computed hb]
    cases hg : g b with
    | ok value =>
      rw [unstored_of_some (goodBucket?_eq_some.mpr ⟨hb, value, hg⟩)]
      rfl
    | error e =>
      have hbad : goodBucket? step g x = none := by
        rw [goodBucket?, hb, Option.filter_some, hg]
        rfl
      rw [unstored_of_none hbad, representative_of_some hb]
      rfl
  · have hg := h.value_of_lesson hpure known
    rw [lesson?_recalled, unstored_of_some (goodBucket?_eq_some.mpr ⟨hb, value, hg⟩)]
    rfl

/-- The buckets that are learnt, in some order. -/
theorem learnt_perm (h : History step visits) (hpure : ∀ v ∈ visits, v.Pure g) :
    ((lessons step visits).map Prod.fst).Perm (goodBuckets step g (visits.map Visit.argument)) := by
  refine (List.perm_ext_iff_of_nodup h.nodup (List.nodup_dedup _)).mpr fun bucket => ?_
  rw [h.bucket_of_lesson_iff hpure, List.mem_dedup]

/-- The calls in a history, in some order: one for each bucket that is learnt, and one for each
argument without such a bucket. -/
theorem calls_perm (h : History step visits) (hpure : ∀ v ∈ visits, v.Pure g) :
    ((visits.flatMap Visit.calls).map Sampler.Call.argument).Perm
      (goodBuckets step g (visits.map Visit.argument) ++
        unstored step g (visits.map Visit.argument)) := by
  have hlessons : (lessons step visits).map Prod.fst =
      visits.flatMap fun v => ((v.lesson? step).map Prod.fst).toList := by
    rw [lessons, List.map_filterMap, List.filterMap_eq_flatMap_toList]
  rw [List.map_flatMap, List.flatMap_congr fun v => h.calls_eq hpure, unstored_eq_flatMap,
    List.flatMap_map]
  refine (List.flatMap_append_perm _ _ _).symm.trans (.append_right _ ?_)
  rw [← hlessons]
  exact h.learnt_perm hpure

end History

def Run.cache {σ : Type} (run : Run σ) (tolerance : Tolerance) : SampleCache (Sampler.Recorded σ) :=
  ⟨tolerance, run.table, ⟨run.state, (run.visits.flatMap Visit.calls).reverse⟩⟩

namespace Run
variable {σ : Type} {f : Sampler σ} {g : Float → Except DivisionByZero Float}

/-- A sample through a cache is a request, and the calls of its visit are those of the function. -/
theorem sample_visit (f : Sampler σ) (run : Run σ) (tolerance : Tolerance) (x : Float) :
    ∃ v, (run.next ⟨x, f⟩).visits = run.visits ++ [v] ∧ v.argument = x ∧
      (∀ call ∈ v.calls, call.outcome = (f call.argument run.state).1) ∧
      SampleCache.sample (Sampler.recorded f) x (run.cache tolerance) =
        (v.answer, (run.next ⟨x, f⟩).cache tolerance) := by
  have hcall (y : Float) : ∀ call ∈ [Sampler.Call.mk y (f y run.state).1],
      call.outcome = (f call.argument run.state).1 := by
    intro call hmem
    obtain rfl := List.mem_singleton.mp hmem
    rfl
  -- a call is put before the calls that are recorded, which are in the opposite order
  have hcalls (call : Sampler.Call) (answer : Except DivisionByZero Float) :
      ((run.visits ++ [Visit.mk x [call] answer]).flatMap Visit.calls).reverse =
        call :: (run.visits.flatMap Visit.calls).reverse := by
    rw [List.flatMap_append, List.reverse_append]
    rfl
  rcases run.next_cases ⟨x, f⟩ with ⟨hb, hn⟩ | ⟨bucket, value, hb, hv, hn⟩ | ⟨bucket, hb, hv, hn⟩
  · refine ⟨_, congrArg Run.visits hn, rfl, hcall x, ?_⟩
    rw [hn, cache, cache, hcalls, SampleCache.sample, getOrCompute_of_no_bucket hb]
    rfl
  · refine ⟨_, congrArg Run.visits hn, rfl, fun call hmem => absurd hmem List.not_mem_nil, ?_⟩
    rw [hn, cache, cache, SampleCache.sample, getOrCompute_of_found hb hv, List.flatMap_append,
      List.flatMap_singleton, List.append_nil]
  · refine ⟨_, congrArg Run.visits hn, rfl, hcall bucket, ?_⟩
    rw [hn, cache, cache, hcalls, SampleCache.sample, getOrCompute_of_absent hb hv]
    rfl

private theorem sample_cache (hf : ∀ x s, (f x s).1 = g x) (run : Run σ) (tolerance : Tolerance)
    (x : Float) :
    ∃ v, (run.next ⟨x, f⟩).visits = run.visits ++ [v] ∧ v.argument = x ∧ v.Pure g ∧
      SampleCache.sample (Sampler.recorded f) x (run.cache tolerance) =
        (v.answer, (run.next ⟨x, f⟩).cache tolerance) := by
  obtain ⟨v, hv, hargument, hcalls, hsample⟩ := run.sample_visit f tolerance x
  exact ⟨v, hv, hargument, fun call hcall => (hcalls call hcall).trans (hf ..), hsample⟩

private theorem each_cache (hf : ∀ x s, (f x s).1 = g x) (run : Run σ) (tolerance : Tolerance)
    (xs : List Float) :
    ∃ later, (run.after (xs.map (⟨·, f⟩))).visits = run.visits ++ later ∧
      later.map Visit.argument = xs ∧ (∀ v ∈ later, v.Pure g) ∧
      (SampleCache.sample (Sampler.recorded f)).each xs (run.cache tolerance) =
        (later.map Visit.answer, (run.after (xs.map (⟨·, f⟩))).cache tolerance) := by
  induction xs generalizing run with
  | nil => exact ⟨[], (List.append_nil _).symm, rfl, fun v hv => absurd hv List.not_mem_nil, rfl⟩
  | cons x xs ih =>
    obtain ⟨v, hv, hargument, hpure, hsample⟩ := run.sample_cache hf tolerance x
    obtain ⟨later, hlater, harguments, hpures, heach⟩ := ih (run.next ⟨x, f⟩)
    refine ⟨v :: later, ?_, ?_, ?_, ?_⟩
    · refine hlater.trans ?_
      rw [hv, List.append_assoc, List.singleton_append]
    · rw [List.map_cons, hargument, harguments]
    · exact List.forall_mem_cons.mpr ⟨hpure, hpures⟩
    · rw [Sampler.each, hsample]
      simp only [heach]
      rfl

end Run

/-- A cache that has given these outcomes at some arguments, of a function that answers as `g` does. -/
structure SampleCache.Served {σ : Type} (cache : SampleCache (Sampler.Recorded σ)) (step : Float)
    (g : Float → Except DivisionByZero Float) (xs : List Float)
    (outcomes : List (Except DivisionByZero Float)) : Prop where
  outcomes_eq : outcomes = xs.map fun x => g (representative step x)
  /-- The calls of the function: one for each bucket where `g` has a value, and one each time that the
  bucket of an argument fails or that it has none. -/
  calls : cache.source.arguments.Perm (goodBuckets step g xs ++ unstored step g xs)
  evaluations : cache.evaluations = (goodBuckets step g xs).length + (unstored step g xs).length
  hits : cache.hits + cache.evaluations = xs.length
  size : cache.table.size = (goodBuckets step g xs).length

namespace SampleCache
variable {σ : Type} {f : Sampler σ} {g : Float → Except DivisionByZero Float}

private theorem fresh_of_create {tolerance : Float} {s : σ} {cache : SampleCache σ}
    (h : create tolerance s = .ok cache) :
    ∃ t hs, t.value = tolerance ∧ cache = fresh t hs s := by
  unfold create Tolerance.ofFloat at h
  by_cases ht : isPositiveFinite tolerance = true
  · rw [dif_pos ht] at h
    change ofTolerance ⟨tolerance, ht⟩ s = .ok cache at h
    obtain ⟨hs, rfl⟩ := fresh_of_ofTolerance h
    exact ⟨⟨tolerance, ht⟩, hs, rfl, rfl⟩
  · rw [dif_neg ht] at h
    cases h

private theorem served_of_fresh (hf : ∀ x s, (f x s).1 = g x) (tolerance : Tolerance)
    (hs : isRoundingStep (stepFor tolerance.value) = true) (s : σ) (xs : List Float) :
    let r := (sample (Sampler.recorded f)).each xs (fresh tolerance hs (.start s))
    r.2.Served (stepFor tolerance.value) g xs r.1 := by
  let start : Run σ := ⟨[], .ofStep _ hs, s⟩
  let run := start.after (xs.map (⟨·, f⟩))
  have hremembers : run.table.Remembers run.visits := Run.remembers_after (remembers_ofStep _ hs) _
  have hstep : run.table.step = stepFor tolerance.value := start.step_after _
  have hcounts : run.table.hits + run.table.misses = xs.length :=
    (start.counts_after _).trans ((Nat.zero_add _).trans (List.length_map _))
  obtain ⟨visits, hvisits, harguments, hpure, heach⟩ := start.each_cache hf tolerance xs
  obtain rfl : run.visits = visits := hvisits
  have hhistory : History (stepFor tolerance.value) run.visits := by
    rw [← hstep]
    exact hremembers.history
  have hsize : run.table.size = (lessons (stepFor tolerance.value) run.visits).length := by
    rw [hremembers.size_eq, hstep]
  have hperm := hhistory.calls_perm hpure
  have hlearnt := (hhistory.learnt_perm hpure).length_eq
  rw [harguments] at hperm hlearnt
  intro r
  have hr : r = (run.visits.map Visit.answer, run.cache tolerance) := heach
  rw [hr]
  constructor
  case outcomes_eq =>
    rw [← harguments, List.map_map]
    exact List.map_congr_left fun v hv => hhistory.answer_eq hpure hv
  case calls =>
    rw [Run.cache, Sampler.Recorded.arguments, List.map_reverse, List.reverse_reverse]
    exact hperm
  case evaluations =>
    rw [← List.length_append, ← hperm.length_eq, List.length_map]
    exact hremembers.misses_eq
  case hits => exact hcounts
  case size => exact hsize.trans ((List.length_map _).symm.trans hlearnt)

/-- A fresh cache for a function whose outcome depends on its argument alone can be asked in any order:
each argument has the same outcome, and the totals are the same. -/
theorem each_perm (hf : ∀ x s, (f x s).1 = g x) {tolerance : Float} {s : σ}
    {cache : SampleCache (Sampler.Recorded σ)} (hcache : create tolerance (.start s) = .ok cache)
    {xs ys : List Float} (hperm : xs.Perm ys) :
    let r := (sample (Sampler.recorded f)).each xs cache
    let r' := (sample (Sampler.recorded f)).each ys cache
    r.2.Served (tolerance * 0.01) g xs r.1 ∧ r'.2.Served (tolerance * 0.01) g ys r'.1 ∧
    (xs.zip r.1).Perm (ys.zip r'.1) ∧
    r.2.evaluations = r'.2.evaluations ∧ r.2.hits = r'.2.hits ∧ r.2.table.size = r'.2.table.size := by
  intro r r'
  obtain ⟨t, hs, rfl, rfl⟩ := fresh_of_create hcache
  have hxs : r.2.Served (stepFor t.value) g xs r.1 := served_of_fresh hf t hs s xs
  have hys : r'.2.Served (stepFor t.value) g ys r'.1 := served_of_fresh hf t hs s ys
  have hgood : (goodBuckets (stepFor t.value) g xs).length = (goodBuckets (stepFor t.value) g ys).length :=
    (hperm.filterMap _).dedup.length_eq
  have hunstored : (unstored (stepFor t.value) g xs).length = (unstored (stepFor t.value) g ys).length :=
    ((hperm.filter _).map _).length_eq
  have hevaluations : r.2.evaluations = r'.2.evaluations := by
    rw [hxs.evaluations, hys.evaluations, hgood, hunstored]
  refine ⟨hxs, hys, ?_, hevaluations, ?_, ?_⟩
  · rw [hxs.outcomes_eq, hys.outcomes_eq, ← List.map_prod_left_eq_zip, ← List.map_prod_left_eq_zip]
    exact hperm.map _
  · have hx := hxs.hits
    have hy := hys.hits
    have hlength := hperm.length_eq
    omega
  · rw [hxs.size, hys.size, hgood]

/-- Reciprocals, asked for in both directions: two arguments share a bucket, two fail and one has no
bucket. -/
theorem each_perm_reciprocals :
    let f : Sampler Nat := fun x n => (if x == 0.0 then .error ⟨1.0⟩ else .ok (1.0 / x), n + 1)
    let cache : SampleCache (Sampler.Recorded Nat) :=
      ⟨⟨4.0, by decide +kernel⟩, .ofStep (stepFor 4.0) (by decide +kernel), .start 0⟩
    let xs : List Float := [0.5, 0.0, 0.0 / 0.0, 0.51, -0.001]
    let r := (sample (Sampler.recorded f)).each xs cache
    let r' := (sample (Sampler.recorded f)).each xs.reverse cache
    (∀ x s s', (f x s).1 = (f x s').1) ∧ create 4.0 (.start 0) = .ok cache ∧ xs.Perm xs.reverse ∧
    (xs.zip r.1).Perm (xs.reverse.zip r'.1) ∧
    (r.2.evaluations, r.2.hits, r.2.table.size) = (r'.2.evaluations, r'.2.hits, r'.2.table.size) ∧
    (r'.2.evaluations, r'.2.hits, r'.2.table.size) = (4, 1, 1) := by
  intro f cache xs r r'
  have hcache : create 4.0 (.start 0) = .ok cache := ok_of_toOption (by rfl)
  have hperm : xs.Perm xs.reverse := (List.reverse_perm xs).symm
  obtain ⟨-, -, houtcomes, hevaluations, hhits, hsize⟩ :=
    each_perm (f := f) (g := fun x => (f x 0).1) (fun x s => rfl) hcache hperm
  refine ⟨fun x s s' => rfl, hcache, hperm, houtcomes, ?_, by decide +kernel⟩
  rw [hevaluations, hhits, hsize]

end SampleCache
end FormulaRoots
