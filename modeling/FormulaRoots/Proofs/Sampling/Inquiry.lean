import FormulaRoots.Sampler

/-! Inquiries: what is asked of a sampled function, apart from the function that answers. Two
functions that answer alike bring an inquiry to the same result. -/
namespace FormulaRoots

/-- A course of samples, in which each argument may depend on the outcomes before it. -/
inductive Inquiry (α : Type) where
  | done (result : α)
  | ask (x : Float) (next : Except DivisionByZero Float → Inquiry α)

namespace Inquiry
variable {α β γ σ τ : Type}

def run (f : Sampler σ) : Inquiry α → σ → α × σ
  | done result, s => (result, s)
  | ask x next, s => (next (f x s).1).run f (f x s).2

def map (h : α → β) : Inquiry α → Inquiry β
  | done result => done (h result)
  | ask x next => ask x fun outcome => (next outcome).map h

theorem run_map (f : Sampler σ) (h : α → β) (q : Inquiry α) (s : σ) :
    (q.map h).run f s = (h (q.run f s).1, (q.run f s).2) := by
  induction q generalizing s with
  | done result => rfl
  | ask x next ih => exact ih (f x s).1 (f x s).2

theorem map_map (g : β → γ) (h : α → β) (q : Inquiry α) : (q.map h).map g = q.map (g ∘ h) := by
  induction q with
  | done result => rfl
  | ask x next ih => exact congrArg (ask x) (funext ih)

theorem map_ite (h : α → β) (c : Prop) [Decidable c] (q r : Inquiry α) :
    (if c then q else r).map h = if c then q.map h else r.map h :=
  apply_ite (map h) c q r

theorem run_ite (f : Sampler σ) (c : Prop) [Decidable c] (q r : Inquiry α) (s : σ) :
    (if c then q else r).run f s = if c then q.run f s else r.run f s := by
  by_cases h : c
  · rw [if_pos h, if_pos h]
  · rw [if_neg h, if_neg h]

/-- What every call keeps is kept by an inquiry. -/
theorem keeps_run {f : Sampler σ} {P : σ → Prop} (hstep : ∀ x s, P s → P (f x s).2) (q : Inquiry α) {s : σ}
    (hs : P s) : P (q.run f s).2 := by
  induction q generalizing s with
  | done result => exact hs
  | ask x next ih => exact ih (f x s).1 (hstep x s hs)

/-- The calls of an inquiry are added to those before it. -/
theorem calls_run (f : Sampler σ) (q : Inquiry α) (r : Sampler.Recorded σ) :
    r.calls <:+ (q.run (Sampler.recorded f) r).2.calls :=
  keeps_run (P := fun r' : Sampler.Recorded σ => r.calls <:+ r'.calls)
    (fun _ _ h => h.trans (List.suffix_cons ..)) q List.suffix_rfl

end Inquiry

namespace Sampler
variable {α σ τ : Type}

/-- From related states the two functions answer alike and come to related states, provided that the
second one comes to a good state; and only good states lead to good states. -/
structure Agree (f : Sampler σ) (g : Sampler τ) (Related : σ → τ → Prop) (Good : τ → Prop) :
    Prop where
  good_before : ∀ x t, Good (g x t).2 → Good t
  answer : ∀ x s t, Related s t → Good (g x t).2 → (f x s).1 = (g x t).1
  related : ∀ x s t, Related s t → Good (g x t).2 → Related (f x s).2 (g x t).2

private theorem Agree.good_before_run {f : Sampler σ} {g : Sampler τ} {Related : σ → τ → Prop}
    {Good : τ → Prop} (h : Agree f g Related Good) (q : Inquiry α) (t : τ)
    (ht : Good (q.run g t).2) : Good t := by
  induction q generalizing t with
  | done result => exact ht
  | ask x next ih => exact h.good_before x t (ih (g x t).1 (g x t).2 ht)

/-- Functions that agree bring every inquiry to the same result. -/
theorem Agree.run {f : Sampler σ} {g : Sampler τ} {Related : σ → τ → Prop} {Good : τ → Prop}
    (h : Agree f g Related Good) (q : Inquiry α) (s : σ) (t : τ) (hr : Related s t)
    (ht : Good (q.run g t).2) :
    (q.run f s).1 = (q.run g t).1 ∧ Related (q.run f s).2 (q.run g t).2 := by
  induction q generalizing s t with
  | done result => exact ⟨rfl, hr⟩
  | ask x next ih =>
    -- only the last state is known to be good, and every state before it is good on that account
    have hgood : Good (g x t).2 := h.good_before_run (next (g x t).1) (g x t).2 ht
    have hanswer := h.answer x s t hr hgood
    have hrelated := h.related x s t hr hgood
    simp only [Inquiry.run, hanswer]
    exact ih (g x t).1 (f x s).2 (g x t).2 hrelated ht

end Sampler
end FormulaRoots
