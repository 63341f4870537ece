import FormulaRoots.Proofs.Memo.Order

/-! The ledger of an inquiry that is put to a fresh cache: each sample with the call that was made for it,
if any, and the two counters. What the ledger says of the calls follows from what it says of the samples:
whether one of them failed, and how many there were. -/
namespace FormulaRoots
open Binary64 MemoTable Visit

namespace Sampler

def Call.Succeeds (call : Call) : Prop :=
  ∃ v, call.outcome = .ok v

/-- Calls of which at most the last one failed, with that failure if there is one. -/
def EndsWith (calls : List Call) : Option DivisionByZero → Prop
  | none => ∀ call ∈ calls, call.Succeeds
  | some e => ∃ earlier x, calls = earlier ++ [⟨x, .error e⟩] ∧ ∀ call ∈ earlier, call.Succeeds

theorem EndsWith.cons {calls : List Call} {failure? : Option DivisionByZero}
    (h : EndsWith calls failure?) (x v : Float) : EndsWith (⟨x, .ok v⟩ :: calls) failure? := by
  cases failure? with
  | none => exact List.forall_mem_cons.mpr ⟨⟨v, rfl⟩, h⟩
  | some e =>
    obtain ⟨earlier, y, rfl, hearlier⟩ := h
    exact ⟨⟨x, .ok v⟩ :: earlier, y, rfl, List.forall_mem_cons.mpr ⟨⟨v, rfl⟩, hearlier⟩⟩

theorem endsWith_failure (x : Float) (e : DivisionByZero) : EndsWith [⟨x, .error e⟩] (some e) :=
  ⟨[], x, rfl, List.forall_mem_nil _⟩

/-- A call that failed is the last one. -/
theorem EndsWith.last_of_failure {calls : List Call} {failure? : Option DivisionByZero}
    (h : EndsWith calls failure?) {i : Nat} {x : Float} {e : DivisionByZero}
    (hi : calls[i]? = some ⟨x, .error e⟩) : i + 1 = calls.length ∧ failure? = some e := by
  have hfails : ¬ (Call.mk x (.error e)).Succeeds := by
    rintro ⟨v, hv⟩
    cases hv
  cases failure? with
  | none => exact absurd (h _ (List.mem_of_getElem? hi)) hfails
  | some e' =>
    obtain ⟨earlier, y, rfl, hearlier⟩ := h
    rcases Nat.lt_trichotomy i earlier.length with hlt | rfl | hlt
    · rw [List.getElem?_append_left hlt] at hi
      exact absurd (hearlier _ (List.mem_of_getElem? hi)) hfails
    · rw [List.getElem?_concat_length] at hi
      cases hi
      exact ⟨by rw [List.length_append, List.length_singleton], rfl⟩
    · rw [List.getElem?_eq_none (by rw [List.length_append, List.length_singleton]; exact hlt)] at hi
      cases hi

end Sampler

open Sampler

def Visit.sample (v : Visit) : Call :=
  ⟨v.argument, v.answer⟩

/-- A visit is answered by one call at the representative of its argument, or by what is known. -/
theorem Visit.Follows.call_or_known {step : Float} {earlier : List Visit} {v : Visit}
    (h : v.Follows step earlier) : v.calls = [⟨representative step v.argument, v.answer⟩] ∨
      v.calls = [] ∧ ∃ bucket value, bucketOf step v.argument = some bucket ∧
        (bucket, value) ∈ lessons step earlier ∧ v.answer = .ok value := by
  cases h with
  | bypassed hb =>
    rw [representative_of_none hb]
    exact .inl rfl
  | computed hb =>
    rw [representative_of_some hb]
    exact .inl rfl
  | recalled hb known => exact .inr ⟨rfl, _, _, hb, known, rfl⟩

namespace History
variable {step : Float} {visits : List Visit}

private theorem call_or_known (h : History step visits) {v : Visit} (hv : v ∈ visits) :
    v.calls = [⟨representative step v.argument, v.answer⟩] ∨
      v.calls = [] ∧ ∃ bucket value, bucketOf step v.argument = some bucket ∧
        (bucket, value) ∈ lessons step visits ∧ v.answer = .ok value := by
  obtain ⟨i, hi⟩ := List.mem_iff_getElem?.mp hv
  rcases (h.follows hi).call_or_known with hcall | ⟨hnone, bucket, value, hb, hknown, hanswer⟩
  · exact .inl hcall
  · obtain ⟨e, he, hlesson⟩ := mem_lessons.mp hknown
    exact .inr ⟨hnone, bucket, value, hb, mem_lessons.mpr ⟨e, List.mem_of_mem_take he, hlesson⟩, hanswer⟩

/-- The calls fail as the samples do. -/
theorem endsWith_calls (h : History step visits) {failure? : Option DivisionByZero}
    (hsamples : EndsWith (visits.map sample) failure?) :
    EndsWith (visits.flatMap Visit.calls) failure? := by
  have hsucceed {front : List Visit} (hfront : ∀ v ∈ front, v ∈ visits)
      (hsamples : ∀ call ∈ front.map sample, call.Succeeds) :
      ∀ call ∈ front.flatMap Visit.calls, call.Succeeds := by
    intro call hcall
    obtain ⟨v, hv, hmem⟩ := List.mem_flatMap.mp hcall
    rcases h.call_or_known (hfront v hv) with hcalls | ⟨hcalls, -⟩
    · rw [hcalls] at hmem
      obtain rfl := List.mem_singleton.mp hmem
      exact hsamples v.sample (List.mem_map_of_mem hv)
    · rw [hcalls] at hmem
      exact absurd hmem List.not_mem_nil
  cases failure? with
  | none => exact hsucceed (fun v hv => hv) hsamples
  | some e =>
    obtain ⟨earlier, x, heq, hearlier⟩ := hsamples
    obtain ⟨front, back, rfl, rfl, hback⟩ := List.map_eq_append_iff.mp heq
    obtain ⟨v, rfl, hv⟩ := List.map_eq_singleton_iff.mp hback
    have hanswer : v.answer = .error e := congrArg Call.outcome hv
    have hcalls : v.calls = [⟨representative step v.argument, .error e⟩] := by
      rcases h.call_or_known (List.mem_append_right front (List.mem_singleton_self v)) with
        hcalls | ⟨-, bucket, value, -, -, hok⟩
      · rwa [hanswer] at hcalls
      · rw [hanswer] at hok
        cases hok
    refine ⟨front.flatMap Visit.calls, representative step v.argument, ?_,
      hsucceed (fun w hw => List.mem_append_left _ hw) hearlier⟩
    rw [List.flatMap_append, List.flatMap_singleton, hcalls]

/-- Every visit is a call or a hit. -/
theorem length_calls_add_hits (h : History step visits) :
    (visits.flatMap Visit.calls).length + (visits.countP fun v => v.calls.isEmpty) = visits.length := by
  induction h with
  | start => rfl
  | @next visits v _ follows ih =>
    rw [List.flatMap_append, List.length_append, List.flatMap_singleton, List.countP_append,
      List.countP_singleton, List.length_append, List.length_singleton, ← ih]
    rcases follows.call_or_known with hcall | ⟨hnone, -⟩
    · rw [hcall]
      simp only [List.length_singleton, List.isEmpty_cons, Bool.false_eq_true, if_false]
      omega
    · rw [hnone]
      simp only [List.length_nil, List.isEmpty_nil, if_true]
      omega

end History

def Visit.roundedArguments (step : Float) (visits : List Visit) : List Float :=
  ((visits.filter fun v => (bucketOf step v.argument).isSome).flatMap Visit.calls).map Call.argument

namespace History
variable {step : Float} {visits : List Visit}

private theorem roundedArguments_eq (h : History step visits) (hok : ∀ v ∈ visits, v.sample.Succeeds) :
    roundedArguments step visits = (lessons step visits).map Prod.fst := by
  induction h with
  | start => rfl
  | @next visits v _ follows ih =>
    obtain ⟨value, hvalue⟩ := hok v (List.mem_append_right _ (List.mem_singleton_self v))
    have hlast : roundedArguments step [v] = ((v.lesson? step).toList).map Prod.fst := by
      unfold roundedArguments
      rw [List.filter_singleton]
      cases follows with
      | bypassed hb =>
        rw [lesson?_bypassed hb, hb]
        rfl
      | computed hb =>
        obtain rfl : _ = Except.ok value := hvalue
        rw [lesson?_computed hb, hb]
        rfl
      | recalled hb =>
        rw [lesson?_recalled, hb]
        rfl
    rw [lessons_append, List.map_append, ← hlast, ← ih fun w hw => hok w (List.mem_append_left _ hw)]
    simp only [roundedArguments, List.filter_append, List.flatMap_append, List.map_append]

/-- Where no sample fails, the calls for samples with a bucket have different arguments. -/
theorem roundedArguments_distinct (h : History step visits) (hok : ∀ v ∈ visits, v.sample.Succeeds) :
    (roundedArguments step visits).Pairwise fun x y => ¬ (x == y) = true := by
  have hbucket {b : Float} (hb : b ∈ (lessons step visits).map Prod.fst) :
      ∃ x, bucketOf step x = some b := by
    obtain ⟨⟨_, value⟩, hmem, rfl⟩ := List.mem_map.mp hb
    obtain ⟨v, -, hb, -⟩ := mem_lessons.mp hmem
    exact ⟨v.argument, hb⟩
  rw [h.roundedArguments_eq hok]
  refine h.nodup.imp_of_mem fun ha hb hne heq => hne ?_
  obtain ⟨x, hx⟩ := hbucket ha
  obtain ⟨y, hy⟩ := hbucket hb
  exact eq_of_beq_of_bucketOf hx hy heq

private theorem bucket_learnt_iff (h : History step visits) (hok : ∀ v ∈ visits, v.sample.Succeeds)
    (bucket : Float) : bucket ∈ (lessons step visits).map Prod.fst ↔
      bucket ∈ (visits.map Visit.argument).filterMap (bucketOf step) := by
  rw [List.mem_filterMap]
  constructor
  · intro hmem
    obtain ⟨⟨_, value⟩, hlesson, rfl⟩ := List.mem_map.mp hmem
    obtain ⟨v, hv, hb, -⟩ := mem_lessons.mp hlesson
    exact ⟨v.argument, List.mem_map_of_mem hv, hb⟩
  · rintro ⟨x, hx, hb⟩
    obtain ⟨v, hv, rfl⟩ := List.mem_map.mp hx
    rcases h.call_or_known hv with hcalls | ⟨-, b, value, hb', hknown, -⟩
    · obtain ⟨value, hvalue⟩ := hok v hv
      have hanswer : v.answer = .ok value := hvalue
      have hcomputed : v.computed? = some value := by
        rw [computed?, hcalls, hanswer]
        rfl
      exact List.mem_map.mpr ⟨(bucket, value), mem_lessons.mpr ⟨v, hv, hb, hcomputed⟩, rfl⟩
    · obtain rfl := Option.some.inj (hb'.symm.trans hb)
      exact List.mem_map.mpr ⟨(b, value), hknown, rfl⟩

/-- Where no sample fails and each has a bucket, there are as many calls as buckets. -/
theorem length_calls_eq (h : History step visits) (hok : ∀ v ∈ visits, v.sample.Succeeds)
    (hbuckets : ∀ v ∈ visits, bucketOf step v.argument ≠ none) :
    (visits.flatMap Visit.calls).length =
      ((visits.map Visit.argument).filterMap (bucketOf step)).dedup.length := by
  have hfilter : (visits.filter fun v => (bucketOf step v.argument).isSome) = visits :=
    List.filter_eq_self.mpr fun v hv => Option.isSome_iff_ne_none.mpr (hbuckets v hv)
  have hrounded := h.roundedArguments_eq hok
  rw [roundedArguments, hfilter] at hrounded
  have hperm : ((lessons step visits).map Prod.fst).Perm
      ((visits.map Visit.argument).filterMap (bucketOf step)).dedup := by
    refine (List.perm_ext_iff_of_nodup h.nodup (List.nodup_dedup _)).mpr fun bucket => ?_
    rw [h.bucket_learnt_iff hok, List.mem_dedup]
  calc (visits.flatMap Visit.calls).length
      = ((visits.flatMap Visit.calls).map Call.argument).length := (List.length_map _).symm
    _ = ((lessons step visits).map Prod.fst).length := by rw [hrounded]
    _ = _ := hperm.length_eq

end History

/-! ### Inquiries -/

/-- Visits to a table, as the asker and the function behind it see them, and the two counters. -/
structure Ledger (step : Float) (visits : List Visit) (samples calls : List Call)
    (evaluations hits : Nat) : Prop where
  history : History step visits
  samples_eq : samples = visits.map Visit.sample
  calls_eq : calls = visits.flatMap Visit.calls
  evaluations_eq : evaluations = calls.length
  hits_eq : hits = visits.countP fun v => v.calls.isEmpty

namespace Run
variable {α σ : Type}

/-- The samples of an inquiry are requests one after the other. -/
theorem run_recorded (f : Sampler σ) (q : Inquiry α) (run : Run σ) (tolerance : Tolerance)
    (earlier : List Call) :
    ∃ later : List Visit, let run' := run.after (later.map fun v => ⟨v.argument, f⟩)
      run'.visits = run.visits ++ later ∧
      (q.run (recorded (SampleCache.sample (recorded f))) ⟨run.cache tolerance, earlier⟩).2 =
        ⟨run'.cache tolerance, (later.map Visit.sample).reverse ++ earlier⟩ := by
  induction q generalizing run earlier with
  | done result => exact ⟨[], (List.append_nil _).symm, rfl⟩
  | ask x next ih =>
    obtain ⟨v, hv, rfl, -, hsample⟩ := run.sample_visit f tolerance x
    obtain ⟨later, hlater, hrun⟩ := ih v.answer (run.next ⟨v.argument, f⟩) (v.sample :: earlier)
    refine ⟨v :: later, ?_, ?_⟩
    · refine hlater.trans ?_
      rw [hv, List.append_assoc, List.singleton_append]
    · have hask : recorded (SampleCache.sample (recorded f)) v.argument ⟨run.cache tolerance, earlier⟩ =
          (v.answer, ⟨(run.next ⟨v.argument, f⟩).cache tolerance, v.sample :: earlier⟩) := by
        simp only [recorded, hsample]
        rfl
      rw [Inquiry.run, hask, hrun, List.map_cons, List.map_cons, List.reverse_cons, List.append_assoc]
      rfl

end Run

/-- An inquiry that is put to a fresh cache leaves a ledger. -/
theorem SampleCache.exists_ledger {α σ : Type} (f : Sampler σ) (q : Inquiry α) (tolerance : Tolerance)
    (hs : isRoundingStep (stepFor tolerance.value) = true) (s : σ) :
    let r := (q.run (recorded (sample (recorded f))) (.start (fresh tolerance hs (.start s)))).2
    ∃ visits, Ledger (stepFor tolerance.value) visits r.calls.reverse r.state.source.calls.reverse
      r.state.evaluations r.state.hits := by
  let start : Run σ := ⟨[], .ofStep _ hs, s⟩
  obtain ⟨visits, hvisits, hrun⟩ := start.run_recorded f q tolerance []
  let run := start.after (visits.map fun v => ⟨v.argument, f⟩)
  have hremembers : run.table.Remembers run.visits := Run.remembers_after (remembers_ofStep _ hs) _
  have hstep : run.table.step = stepFor tolerance.value := start.step_after _
  have hvisits : run.visits = visits := hvisits
  rw [hvisits] at hremembers
  intro r
  have hr : r = ⟨run.cache tolerance, (visits.map Visit.sample).reverse ++ []⟩ := hrun
  have hcalls : r.state.source.calls.reverse = visits.flatMap Visit.calls := by
    rw [hr, Run.cache, hvisits, List.reverse_reverse]
  refine ⟨visits, hstep ▸ hremembers.history, ?_, hcalls, ?_, ?_⟩
  · rw [hr, List.append_nil, List.reverse_reverse]
  · rw [hcalls, hr]
    exact hremembers.misses_eq
  · rw [hr]
    exact hremembers.hits_eq

end FormulaRoots
