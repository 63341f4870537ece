import FormulaRoots.Formula.Evaluation

/-! Functions that are sampled: they may fail at a point, and they may keep a state from one call to
the next. -/
namespace FormulaRoots

/-- A function of a double whose calls may fail and may change a state of type `σ`. -/
abbrev Sampler (σ : Type) := Float → σ → Except DivisionByZero Float × σ

namespace Sampler

def pure {σ : Type} (f : Float → Except DivisionByZero Float) : Sampler σ :=
  fun x s => (f x, s)

structure Call where
  argument : Float
  outcome : Except DivisionByZero Float

/-- The state of a function together with the calls that it received, the last one first. -/
structure Recorded (σ : Type) where
  state : σ
  calls : List Call

def Recorded.start {σ : Type} (s : σ) : Recorded σ := ⟨s, []⟩

def Recorded.arguments {σ : Type} (r : Recorded σ) : List Float :=
  (r.calls.map Call.argument).reverse

def recorded {σ : Type} (f : Sampler σ) : Sampler (Recorded σ) := fun x r =>
  let (outcome, s) := f x r.state
  (outcome, ⟨s, ⟨x, outcome⟩ :: r.calls⟩)

end Sampler
end FormulaRoots
