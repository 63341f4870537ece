import FormulaRoots.Memo.SampleCache
import FormulaRoots.Proofs.Memo.Calls
import FormulaRoots.Proofs.Sampling.Inquiry

/-! What a memo table holds of a function whose outcome depends on its argument alone: every stored
value is the function's value at its bucket, so a cache answers as the function itself does at the
rounded argument. -/
namespace FormulaRoots

namespace MemoTable

/-- The argument that stands for `x` in samples: its bucket, or `x` itself where there is none. -/
def representative (step x : Float) : Float :=
  (bucketOf step x).getD x

theorem representative_of_none {step x : Float} (h : bucketOf step x = none) :
    representative step x = x := by
  rw [representative, h, Option.getD_none]

theorem representative_of_some {step x bucket : Float} (h : bucketOf step x = some bucket) :
    representative step x = bucket := by
  rw [representative, h, Option.getD_some]

def Holds (t : MemoTable) (g : Float → Except DivisionByZero Float) : Prop :=
  ∀ bucket value, t.find? bucket = some value → g bucket = .ok value

theorem holds_ofStep (step : Float) (h : isRoundingStep step = true)
    (g : Float → Except DivisionByZero Float) : (ofStep step h).Holds g := by
  intro bucket value hf
  simp [find?, ofStep] at hf

/-- One call, for a function whose outcomes are those of `g`: the answer is that of `g` at the
representative, and the table still holds values of `g`. -/
theorem Holds.getOrCompute {σ : Type} {f : Sampler σ} {g : Float → Except DivisionByZero Float}
    (hf : ∀ x s, (f x s).1 = g x) {t : MemoTable} (h : t.Holds g) (x : Float) (s : σ) :
    (t.getOrCompute f x s).1 = g (representative t.step x) ∧
    (t.getOrCompute f x s).2.1.Holds g ∧ (t.getOrCompute f x s).2.1.step = t.step := by
  cases hb : t.bucket? x with
  | none =>
    rw [getOrCompute_of_no_bucket hb, representative_of_none hb]
    exact ⟨hf x s, h, rfl⟩
  | some bucket =>
    rw [representative_of_some hb]
    cases hv : t.find? bucket with
    | some value =>
      rw [getOrCompute_of_found hb hv]
      exact ⟨(h bucket value hv).symm, h, rfl⟩
    | none =>
      rw [getOrCompute_of_absent hb hv, hf]
      refine ⟨rfl, fun other value ho => ?_, step_learn ..⟩
      rcases find?_learn ho with ⟨rfl, hg⟩ | ho
      · exact hg
      · exact h other value ho

end MemoTable

def Sampler.rounded {σ : Type} (step : Float) (f : Sampler σ) : Sampler σ :=
  fun x s => f (MemoTable.representative step x) s

namespace SampleCache
variable {σ : Type}

/-- What each call of a function keeps is kept by each sample. -/
theorem keeps_sample {f : Sampler σ} {P : σ → Prop} (hf : ∀ x s, P s → P (f x s).2) (x : Float)
    (c : SampleCache σ) (hc : P c.source) : P (sample f x c).2.source := by
  change P (c.table.getOrCompute f x c.source).2.2
  rcases c.table.source_getOrCompute f x c.source with hsame | ⟨y, hcall⟩
  · rw [hsame]
    exact hc
  · rw [hcall]
    exact hf y c.source hc

/-- What each call of a function keeps is kept by an inquiry through a cache. -/
theorem keeps_run {α : Type} {f : Sampler σ} {P : σ → Prop} (hf : ∀ x s, P s → P (f x s).2)
    (q : Inquiry α) {c : SampleCache σ} (hc : P c.source) : P (q.run (sample f) c).2.source :=
  Inquiry.keeps_run (P := fun c : SampleCache σ => P c.source) (keeps_sample hf) q hc

/-- A cache that holds values of `g` agrees with sampling at the representatives. -/
theorem sample_agree_rounded {f : Sampler σ} {g : Float → Except DivisionByZero Float}
    (hf : ∀ x s, (f x s).1 = g x) (step : Float) :
    Sampler.Agree (sample f) (Sampler.rounded step f)
      (fun c _ => c.table.Holds g ∧ c.table.step = step) (fun _ => True) where
  good_before _ _ h := h
  answer x c s h _ := by
    obtain ⟨hg, rfl⟩ := h
    exact (hg.getOrCompute hf x c.source).1.trans (hf _ s).symm
  related x c s h _ := by
    obtain ⟨hg, rfl⟩ := h
    exact (hg.getOrCompute hf x c.source).2

end SampleCache
end FormulaRoots
