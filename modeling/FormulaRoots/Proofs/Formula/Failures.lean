import FormulaRoots.Proofs.Formula.Copies

/-! Divisions by zero behind a memo. A failure is never stored, and a value stands for its whole bucket,
so an expression fails where its formula fails as long as the bucket has no value. -/
namespace FormulaRoots
open MemoTable Expression

def Fails (outcome : Except DivisionByZero Float) : Prop :=
  ∃ cause, outcome = .error cause

private theorem fails_iff_toOption {outcome : Except DivisionByZero Float} :
    Fails outcome ↔ outcome.toOption = none := by
  cases outcome with
  | error cause => simp [Fails, Except.toOption]
  | ok value => simp [Fails, Except.toOption]

instance (outcome : Except DivisionByZero Float) : Decidable (Fails outcome) :=
  decidable_of_iff _ fails_iff_toOption.symm

private theorem not_fails_ok (value : Float) : ¬ Fails (.ok value) := by
  rw [fails_iff_toOption]
  nofun

def Expression.ShareBucket (x y : Float) : Prop :=
  ∃ bucket, bucketOf 1e-10 x = some bucket ∧ bucketOf 1e-10 y = some bucket

namespace Formula
variable {formula : Formula} {history : List Float} {x : Float}

private theorem first?_eq_none_iff : formula.first? history x = none ↔
    ∀ y ∈ history, ShareBucket x y → Fails (formula.eval y) := by
  constructor
  · rintro hnone y hy ⟨bucket, hx, hb⟩
    rw [first?_of_bucket hx, List.find?_eq_none] at hnone
    cases hv : formula.eval y with
    | error cause => exact ⟨cause, rfl⟩
    | ok value => exact absurd (gives_iff.mpr ⟨hb, value, hv⟩) (hnone y hy)
  · intro hfails
    cases hx : bucketOf 1e-10 x with
    | none => rw [first?, hx, Option.bind_none]
    | some bucket =>
      rw [first?_of_bucket hx, List.find?_eq_none]
      intro y hy hgives
      obtain ⟨hb, value, hv⟩ := gives_iff.mp hgives
      have hf := hfails y hy ⟨bucket, hx, hb⟩
      rw [hv] at hf
      exact not_fails_ok value hf

private theorem eval_standIn_eq_error_iff {cause : DivisionByZero} :
    formula.eval (formula.standIn history x) = .error cause ↔
      formula.eval x = .error cause ∧ ∀ y ∈ history, ShareBucket x y → Fails (formula.eval y) := by
  rw [← first?_eq_none_iff, standIn]
  cases hfirst : formula.first? history x with
  | none => simp only [Option.getD_none, and_true]
  | some y =>
    have hgiven : ¬ Fails (formula.eval y) := by
      rw [first?, Option.bind_eq_some_iff] at hfirst
      obtain ⟨bucket, -, hy⟩ := hfirst
      obtain ⟨-, value, hv⟩ := gives_iff.mp (List.find?_some hy)
      rw [hv]
      exact not_fails_ok value
    simp only [Option.getD_some, reduceCtorEq, and_false, iff_false]
    exact fun hv => hgiven ⟨cause, hv⟩

private theorem fails_standIn_iff : Fails (formula.eval (formula.standIn history x)) ↔
    Fails (formula.eval x) ∧ ∀ y ∈ history, ShareBucket x y → Fails (formula.eval y) := by
  simp only [Fails, eval_standIn_eq_error_iff, exists_and_right]

end Formula

namespace Operation

def performEach (operations : List Operation) (e : Expression) : Expression :=
  operations.foldl (fun e operation => (operation.perform e).2) e

/-- The arguments at which an expression has been evaluated since its memo was last empty, if these were
`history` before some operations. -/
def recordEach (operations : List Operation) (history : List Float) : List Float :=
  operations.foldl (fun history operation => operation.record history) history

private theorem recordEach_evaluate (xs history : List Float) :
    recordEach (xs.map .evaluate) history = history ++ xs := by
  induction xs generalizing history with
  | nil => exact (List.append_nil history).symm
  | cons x xs ih => exact (ih (history ++ [x])).trans (List.append_assoc history [x] xs)

private theorem performEach_of_hasHistory {e slot : Expression} {history : List Float}
    (h : slot.HasHistory e.formula history) (operations : List Operation) :
    (performEach operations slot).HasHistory e.formula (recordEach operations history) := by
  induction operations generalizing slot history with
  | nil => exact h
  | cons operation operations ih => exact ih (operation.perform_of_hasHistory h).2

end Operation

open Operation

/-- After any operations, an expression fails at `x` with a division by zero if and only if its formula
fails at `x` with this division, and at each argument in the bucket of `x` at which it was evaluated
since the memo was last empty. So a second call at `x` fails as the first one did, unless a call in
between gave the bucket a value; and it never fails where the first one did not. -/
theorem Expression.evaluate_fails_iff {source : String} {e : Expression} (h : ofText source = .ok e)
    (operations : List Operation) (x : Float) :
    let slot := performEach operations e
    (∀ cause, (slot.evaluate x).1 = .error cause ↔ (slot.evaluateUncached x).1 = .error cause ∧
      ∀ y ∈ recordEach operations [], ShareBucket x y → Fails (slot.evaluateUncached y).1) ∧
    ∀ ys, Fails ((performEach ((x :: ys).map .evaluate) slot).evaluate x).1 ↔
      Fails (slot.evaluate x).1 ∧ ∀ y ∈ ys, ShareBucket x y → Fails (slot.evaluateUncached y).1 := by
  intro slot
  have hmemo : e.memo = emptyMemo := by
    rw [(ofText_ok h).2]
    rfl
  have hslot : slot.HasHistory e.formula (recordEach operations []) :=
    performEach_of_hasHistory (hasHistory_empty rfl hmemo) operations
  have huncached (y : Float) : (slot.evaluateUncached y).1 = e.formula.eval y :=
    congrArg (Formula.eval · y) hslot.formula_eq
  refine ⟨fun cause => ?_, fun ys => ?_⟩
  · simp only [(hslot.evaluate x).1, huncached]
    exact Formula.eval_standIn_eq_error_iff
  · have hlater := performEach_of_hasHistory hslot ((x :: ys).map .evaluate)
    rw [recordEach_evaluate] at hlater
    simp only [(hlater.evaluate x).1, (hslot.evaluate x).1, huncached, Formula.fails_standIn_iff,
      List.forall_mem_append, List.forall_mem_cons]
    -- that the formula fails at `x` itself is said twice on the left
    tauto

/-- A reciprocal fails at 0 again and again, as long as it has not been evaluated nearby since its memo
was emptied. -/
theorem Expression.evaluate_fails_iff_reciprocal :
    let e : Expression := .ofFormula ⟨"1/x", .binary .div (.number 1.0) .variable, none⟩
    let slot := performEach [.evaluate 0.0, .evaluate 1e-11, .clearCache] e
    ofText "1/x" = .ok e ∧
    (slot.evaluate 0.0).1 = .error ⟨1.0⟩ ∧
    Fails ((performEach ([0.0, 3.0].map .evaluate) slot).evaluate 0.0).1 ∧
    ¬ Fails ((performEach ([0.0, 3.0, 1e-11].map .evaluate) slot).evaluate 0.0).1 := by
  intro e slot
  have he : ofText "1/x" = .ok e := ofText_of_formula (by decide +kernel)
  obtain ⟨hfirst, hsecond⟩ :=
    evaluate_fails_iff he [.evaluate 0.0, .evaluate 1e-11, .clearCache] 0.0
  have hzero : (slot.evaluate 0.0).1 = .error ⟨1.0⟩ := by
    refine (hfirst ⟨1.0⟩).mpr ⟨by rfl, ?_⟩
    nofun
  have hbuckets : bucketOf 1e-10 0.0 = some 0.0 ∧ bucketOf 1e-10 1e-11 = some 0.0 ∧
      bucketOf 1e-10 3.0 ≠ some 0.0 := by decide +kernel
  obtain ⟨hb, hnear, hfar⟩ := hbuckets
  refine ⟨he, hzero, (hsecond [3.0]).mpr ⟨⟨_, hzero⟩, ?_⟩, fun hfails => ?_⟩
  · rintro y hy ⟨bucket, hx, hshared⟩
    rw [List.mem_singleton.mp hy] at hshared
    rw [hb] at hx
    cases hx
    exact absurd hshared hfar
  · have hnone := ((hsecond [3.0, 1e-11]).mp hfails).2 1e-11 (by simp) ⟨0.0, hb, hnear⟩
    revert hnone
    decide +kernel

/-- The memo hides a division by zero once another argument in the bucket has a value: a reciprocal that
failed at 0 has a value there after it was evaluated at 1e-11. -/
theorem Expression.evaluate_hides_failure :
    (¬ ∀ source e, ofText source = .ok e → ∀ operations x,
      let slot := performEach operations e
      Fails (slot.evaluate x).1 ↔ Fails (slot.evaluateUncached x).1) ∧
    (¬ ∀ source e, ofText source = .ok e → ∀ operations x ys,
      let slot := performEach operations e
      Fails (slot.evaluate x).1 ↔
        Fails ((performEach ((x :: ys).map .evaluate) slot).evaluate x).1) := by
  let formula : Formula := ⟨"1/x", .binary .div (.number 1.0) .variable, none⟩
  have he : ofText "1/x" = .ok (.ofFormula formula) := ofText_of_formula (by decide +kernel)
  constructor
  · intro h
    have hboth := h "1/x" _ he [.evaluate 1e-11] 0.0
    revert hboth
    decide +kernel
  · intro h
    have hboth := h "1/x" _ he [] 0.0 [1e-11]
    revert hboth
    decide +kernel

end FormulaRoots
