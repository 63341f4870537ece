import FormulaRoots.Formula.Expression
import FormulaRoots.Proofs.Solver.Agreement

/-! What the memo of a formula does to its values. The memo rounds by a fixed step and keeps the first
value of a bucket, so it goes unnoticed where the arguments in one bucket have one value. -/
namespace FormulaRoots
open Sampler

private theorem Sampler.arguments_recorded {σ : Type} (f : Sampler σ) (x : Float) (r : Recorded σ) :
    (recorded f x r).2.arguments = r.arguments ++ [x] := by
  simp only [recorded, Recorded.arguments, List.map_cons, List.reverse_cons]

/-- Those of the arguments that share a bucket of the memo share the value of the formula. -/
def Formula.ConsistentOn (formula : Formula) (xs : List Float) : Prop :=
  ∀ x ∈ xs, ∀ y ∈ xs, (MemoTable.bucketOf 1e-10 x).isSome →
    MemoTable.bucketOf 1e-10 x = MemoTable.bucketOf 1e-10 y →
    formula.eval x = formula.eval y

private theorem Formula.ConsistentOn.mono {formula : Formula} {xs ys : List Float}
    (h : formula.ConsistentOn ys) (hs : ∀ x ∈ xs, x ∈ ys) : formula.ConsistentOn xs :=
  fun x hx y hy => h x (hs x hx) y (hs y hy)

/-- Arguments in different buckets are consistent. -/
theorem Formula.consistentOn_of_buckets_ne (formula : Formula) {xs : List Float}
    (h : ∀ x ∈ xs, ∀ y ∈ xs,
      MemoTable.bucketOf 1e-10 x = MemoTable.bucketOf 1e-10 y → x = y) :
    formula.ConsistentOn xs :=
  fun x hx y hy _ hb => congrArg formula.eval (h x hx y hy hb)

namespace Expression

structure Recalls (formula : Formula) (e : Expression) (r : Recorded Expression) : Prop where
  formula_eq : e.formula = formula
  recorded_eq : r.state.formula = formula
  step_eq : e.memo.step = 1e-10
  stored : ∀ bucket value, e.memo.find? bucket = some value →
    ∃ y ∈ r.arguments, MemoTable.bucketOf 1e-10 y = some bucket ∧ formula.eval y = .ok value

theorem recalls_start (formula : Formula) :
    Recalls formula (ofFormula formula) (.start (ofFormula formula)) where
  formula_eq := rfl
  recorded_eq := rfl
  step_eq := rfl
  stored bucket value h := by
    simp [MemoTable.find?, ofFormula, emptyMemo, MemoTable.ofStep] at h

/-- One call at `x`: without a bucket nothing is stored, and otherwise the memo of the bucket decides. -/
theorem evaluate_cases (x : Float) (e : Expression) :
    (e.memo.bucket? x = none ∧
      evaluate x e = (e.formula.eval x, { e with memo := e.memo.countMiss })) ∨
    (∃ bucket value, e.memo.bucket? x = some bucket ∧ e.memo.find? bucket = some value ∧
      evaluate x e = (.ok value, { e with memo := e.memo.countHit })) ∨
    (∃ bucket, e.memo.bucket? x = some bucket ∧ e.memo.find? bucket = none ∧
      evaluate x e =
        (e.formula.eval x, { e with memo := e.memo.learn bucket (e.formula.eval x) })) := by
  unfold evaluate
  cases hb : e.memo.bucket? x with
  | none =>
    rw [MemoTable.getOrCompute_of_no_bucket hb]
    exact .inl ⟨rfl, rfl⟩
  | some bucket =>
    cases hv : e.memo.find? bucket with
    | some value =>
      rw [MemoTable.getOrCompute_of_found hb hv]
      exact .inr (.inl ⟨bucket, value, rfl, hv, rfl⟩)
    | none =>
      rw [MemoTable.getOrCompute_of_absent hb hv]
      exact .inr (.inr ⟨bucket, rfl, hv, rfl⟩)

/-- As long as the arguments on record are consistent, the memo changes no answer. -/
theorem evaluate_agree (formula : Formula) :
    Agree evaluate (recorded evaluateUncached) (Recalls formula)
      (fun r => formula.ConsistentOn r.arguments) where
  good_before x r h := by
    refine h.mono fun y hy => ?_
    rw [arguments_recorded]
    exact List.mem_append_left _ hy
  answer x e r h hgood := by
    have hx : (recorded evaluateUncached x r).1 = formula.eval x := by
      rw [← h.recorded_eq]
      rfl
    rw [hx]
    rcases evaluate_cases x e with ⟨-, he⟩ | ⟨bucket, value, hb, hv, he⟩ | ⟨bucket, -, -, he⟩
    · rw [he, h.formula_eq]
    · obtain ⟨y, hy, hyb, hyv⟩ := h.stored bucket value hv
      have hxb : MemoTable.bucketOf 1e-10 x = some bucket := h.step_eq ▸ hb
      rw [arguments_recorded] at hgood
      rw [he, ← hyv]
      refine hgood y (List.mem_append_left _ hy) x (List.mem_append_right _ (List.mem_singleton_self x))
        ?_ (hyb.trans hxb.symm)
      rw [hyb]
      rfl
    · rw [he, h.formula_eq]
  related x e r h _ := by
    have hold : ∀ bucket value, e.memo.find? bucket = some value →
        ∃ y ∈ (recorded evaluateUncached x r).2.arguments,
          MemoTable.bucketOf 1e-10 y = some bucket ∧ formula.eval y = .ok value := by
      intro bucket value hv
      obtain ⟨y, hy, hrest⟩ := h.stored bucket value hv
      rw [arguments_recorded]
      exact ⟨y, List.mem_append_left _ hy, hrest⟩
    rcases evaluate_cases x e with ⟨-, he⟩ | ⟨_, _, -, -, he⟩ | ⟨bucket, hb, -, he⟩
    · rw [he]
      exact ⟨h.formula_eq, h.recorded_eq, h.step_eq, hold⟩
    · rw [he]
      exact ⟨h.formula_eq, h.recorded_eq, h.step_eq, hold⟩
    · rw [he]
      refine ⟨h.formula_eq, h.recorded_eq, (MemoTable.step_learn ..).trans h.step_eq,
        fun other value hv => ?_⟩
      -- the new value is that of `x`, which is on record by now
      rcases MemoTable.find?_learn hv with ⟨rfl, hc⟩ | hv
      · refine ⟨x, ?_, h.step_eq ▸ hb, h.formula_eq ▸ hc⟩
        rw [arguments_recorded]
        exact List.mem_append_right _ (List.mem_singleton_self x)
      · exact hold other value hv

end Expression

end FormulaRoots
