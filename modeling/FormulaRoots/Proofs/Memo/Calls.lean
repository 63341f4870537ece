import FormulaRoots.Memo.Table

/-! One call through a memo table: which of three ways it goes, and what the table knows afterwards. -/
namespace FormulaRoots

/-- A double is determined by its bits. -/
theorem Binary64.eq_of_toBits_eq {a b : Float} (h : a.toBits = b.toBits) : a = b := by
  obtain ⟨a, ha⟩ := a
  obtain ⟨b, hb⟩ := b
  cases h
  rfl

namespace MemoTable
variable {σ : Type}

/-- A lookup after storing a value for a bucket. -/
theorem find?_store (t : MemoTable) (bucket value other : Float) :
    (t.store bucket value).find? other = if bucket = other then some value else t.find? other := by
  by_cases h : bucket = other
  · subst h
    rw [if_pos rfl, find?_store_self]
  · rw [if_neg h, find?_store_of_ne]
    exact fun hb => h (Binary64.eq_of_toBits_eq hb)

/-- The table after a value was computed for a bucket. A failure is counted and not stored. -/
def learn (t : MemoTable) (bucket : Float) : Except DivisionByZero Float → MemoTable
  | .ok value => t.countMiss.store bucket value
  | .error _ => t.countMiss

/-- What a table has learned is all that it knows beside what it knew. -/
theorem find?_learn {t : MemoTable} {bucket other value : Float}
    {outcome : Except DivisionByZero Float}
    (h : (t.learn bucket outcome).find? other = some value) :
    (bucket = other ∧ outcome = .ok value) ∨ t.find? other = some value := by
  cases outcome with
  | error e => exact .inr h
  | ok v =>
    rw [learn, find?_store] at h
    by_cases hb : bucket = other
    · rw [if_pos hb] at h
      cases h
      exact .inl ⟨hb, rfl⟩
    · rw [if_neg hb] at h
      exact .inr h

@[simp] theorem step_learn (t : MemoTable) (bucket : Float) (outcome : Except DivisionByZero Float) :
    (t.learn bucket outcome).step = t.step := by
  cases outcome <;> rfl

/-- Without a bucket the function is called at the argument itself. -/
theorem getOrCompute_of_no_bucket {t : MemoTable} {x : Float} (hb : t.bucket? x = none)
    (compute : Sampler σ) (s : σ) :
    t.getOrCompute compute x s = ((compute x s).1, t.countMiss, (compute x s).2) := by
  unfold getOrCompute
  rw [hb]

/-- A stored value is the answer. -/
theorem getOrCompute_of_found {t : MemoTable} {x bucket value : Float}
    (hb : t.bucket? x = some bucket) (hv : t.find? bucket = some value) (compute : Sampler σ) (s : σ) :
    t.getOrCompute compute x s = (.ok value, t.countHit, s) := by
  simp only [getOrCompute, hb, hv]

/-- Without a stored value the function is called at the bucket. -/
theorem getOrCompute_of_absent {t : MemoTable} {x bucket : Float} (hb : t.bucket? x = some bucket)
    (hv : t.find? bucket = none) (compute : Sampler σ) (s : σ) :
    t.getOrCompute compute x s =
      ((compute bucket s).1, t.learn bucket (compute bucket s).1, (compute bucket s).2) := by
  simp only [getOrCompute, hb, hv]
  rcases compute bucket s with ⟨e | value, s'⟩ <;> rfl

/-- What a call through a table does to the function behind it: nothing, or one call. -/
theorem source_getOrCompute (t : MemoTable) (compute : Sampler σ) (x : Float) (s : σ) :
    (t.getOrCompute compute x s).2.2 = s ∨
      ∃ y, (t.getOrCompute compute x s).2.2 = (compute y s).2 := by
  cases hb : t.bucket? x with
  | none =>
    rw [getOrCompute_of_no_bucket hb]
    exact .inr ⟨x, rfl⟩
  | some bucket =>
    cases hv : t.find? bucket with
    | some value =>
      rw [getOrCompute_of_found hb hv]
      exact .inl rfl
    | none =>
      rw [getOrCompute_of_absent hb hv]
      exact .inr ⟨bucket, rfl⟩

end MemoTable
end FormulaRoots
