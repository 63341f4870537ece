import Std.Data.TreeMap
import FormulaRoots.Binary64.Rounding
import FormulaRoots.Sampler

/-! Memo tables: values of a function stored under rounded arguments. Arguments are rounded to a
multiple of a fixed step; those with the same multiple share a bucket and one stored value. -/
namespace FormulaRoots
open Binary64

/-- A step by which arguments can be rounded is positive and neither subnormal nor infinite. -/
def isRoundingStep (step : Float) : Bool :=
  isNormal step && decide ((0.0 : Float) < step)

/-- Values stored under rounded arguments. Nothing is ever removed. -/
structure MemoTable where
  step : Float
  step_valid : isRoundingStep step = true
  /-- The values, by the bits of the rounded argument. -/
  entries : Std.TreeMap UInt64 Float
  /-- How many calls were answered from the table. -/
  hits : Nat
  /-- How many calls were computed. -/
  misses : Nat

namespace MemoTable

def ofStep (step : Float) (h : isRoundingStep step = true) : MemoTable :=
  ⟨step, h, ∅, 0, 0⟩

def ofStep? (step : Float) : Option MemoTable :=
  if h : isRoundingStep step = true then some (ofStep step h) else none

/-- The multiple of `step` nearest to `x`. There is none if `x` is not a number or the multiple is out
of range; both zeros give plus zero. -/
def bucketOf (step x : Float) : Option Float :=
  let rounded := roundAway (x / step) * step
  if !rounded.isFinite then none
  else some (if rounded == 0.0 then 0.0 else rounded)

def bucket? (t : MemoTable) (x : Float) : Option Float :=
  bucketOf t.step x

def find? (t : MemoTable) (bucket : Float) : Option Float :=
  t.entries[bucket.toBits]?

def store (t : MemoTable) (bucket value : Float) : MemoTable :=
  { t with entries := t.entries.insert bucket.toBits value }

def size (t : MemoTable) : Nat :=
  t.entries.size

def isEmpty (t : MemoTable) : Bool :=
  t.entries.isEmpty

def countHit (t : MemoTable) : MemoTable :=
  { t with hits := t.hits + 1 }

def countMiss (t : MemoTable) : MemoTable :=
  { t with misses := t.misses + 1 }

/-- The value for the bucket of `x`, taken from the table or else computed at the rounded argument
and stored. Where there is no bucket the value is computed at `x` itself and not stored; failures
are never stored. -/
def getOrCompute {σ : Type} (t : MemoTable) (compute : Sampler σ) (x : Float) (s : σ) :
    Except DivisionByZero Float × MemoTable × σ :=
  match t.bucket? x with
  | none =>
    let (outcome, s) := compute x s
    (outcome, t.countMiss, s)
  | some bucket =>
    match t.find? bucket with
    | some value => (.ok value, t.countHit, s)
    | none =>
      match compute bucket s with
      | (.ok value, s) => (.ok value, t.countMiss.store bucket value, s)
      | (.error e, s) => (.error e, t.countMiss, s)

/-- What has been stored for a bucket is found there. -/
@[simp] theorem find?_store_self (t : MemoTable) (bucket value : Float) :
    (t.store bucket value).find? bucket = some value := by
  simp [find?, store]

/-- Storing a value leaves the other buckets as they were. -/
theorem find?_store_of_ne (t : MemoTable) {bucket other : Float} (value : Float)
    (h : bucket.toBits ≠ other.toBits) :
    (t.store bucket value).find? other = t.find? other := by
  simp [find?, store, Std.TreeMap.getElem?_insert, h]

/-- Every call is counted once, as a hit or as a miss. -/
theorem hits_add_misses_getOrCompute {σ : Type} (t : MemoTable) (compute : Sampler σ) (x : Float)
    (s : σ) :
    (t.getOrCompute compute x s).2.1.hits + (t.getOrCompute compute x s).2.1.misses
      = t.hits + t.misses + 1 := by
  unfold getOrCompute
  split
  · exact (Nat.add_assoc ..).symm
  · split
    · simp only [countHit]
      omega
    · split
      · exact (Nat.add_assoc ..).symm
      · exact (Nat.add_assoc ..).symm

end MemoTable
end FormulaRoots
