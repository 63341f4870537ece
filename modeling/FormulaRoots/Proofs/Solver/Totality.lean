import FormulaRoots.Proofs.Formula.Copies
import FormulaRoots.Proofs.Formula.Division
import FormulaRoots.Proofs.Solver.Failures
import FormulaRoots.Solver.Solve

/-! Functions that never fail. A solver adds no arithmetic failure of its own, so for such a function it
gives a report or refuses its arguments, and formulas without a division are such functions. -/
namespace FormulaRoots
open Sampler

namespace Sampler
variable {σ : Type} {f : Sampler σ} {P : σ → Prop}

/-- In the states with a property a function has a value everywhere, and it keeps the property. -/
structure TotalOn (f : Sampler σ) (P : σ → Prop) : Prop where
  value : ∀ x s, P s → ∃ v, (f x s).1 = .ok v
  kept : ∀ x s, P s → P (f x s).2

def Recorded.Succeeded (P : σ → Prop) (r : Recorded σ) : Prop :=
  P r.state ∧ ∀ call ∈ r.calls, ∃ v, call.outcome = .ok v

private theorem Recorded.succeeded_start {s : σ} (hs : P s) : (Recorded.start s).Succeeded P :=
  ⟨hs, List.forall_mem_nil _⟩

private theorem TotalOn.succeeded_recorded (h : TotalOn f P) (x : Float) (r : Recorded σ)
    (hr : r.Succeeded P) :
    (recorded f x r).2.Succeeded P := by
  obtain ⟨hstate, hcalls⟩ := hr
  exact ⟨h.kept x r.state hstate, List.forall_mem_cons.mpr ⟨h.value x r.state hstate, hcalls⟩⟩

end Sampler

/-! ### Solvers -/

section
variable {σ : Type} {f : Sampler σ} {P : σ → Prop} {s : σ}

/-- What each call keeps is kept by a bisection. -/
theorem Bisection.keeps (hf : ∀ x s, P s → P (f x s).2) (hs : P s) (bracket : Bracket)
    (cfg : BisectionConfig) : P (bisection f bracket cfg s).2 := by
  by_cases hb : bracket.isProper = true
  · by_cases hstep : isRoundingStep (SampleCache.stepFor cfg.tolerance.value) = true
    · rw [bisection_of_step hb hstep]
      exact SampleCache.keeps_run hf _ hs
    · rw [bisection_of_no_step hb hstep]
      exact hs
  · rw [bisection_of_improper hb]
    exact hs

/-- What each call keeps is kept by a fixed-point iteration. -/
theorem FixedPoint.keeps (hf : ∀ x s, P s → P (f x s).2) (hs : P s) (x0 : Float)
    (cfg : FixedPointConfig) : P (fixedPoint f x0 cfg s).2 := by
  by_cases hstep : isRoundingStep (SampleCache.stepFor cfg.tolerance.value) = true
  · rw [fixedPoint_of_step hstep]
    exact SampleCache.keeps_run hf _ hs
  · rw [fixedPoint_of_no_step hstep]
    exact hs

private theorem FailsFast.kind_of_succeeded {ρ : Type} {calls : List Call}
    {result : Except SolverError (Report ρ)} (h : FailsFast calls result)
    (hcalls : ∀ call ∈ calls, ∃ v, call.outcome = .ok v) {e : SolverError} (he : result = .error e) :
    e.kind = .invalidArgument := by
  cases e with
  | arithmetic cause =>
    obtain ⟨earlier, x, rfl, -⟩ := h.cause cause he
    obtain ⟨v, hv⟩ := hcalls ⟨x, .error cause⟩ (List.mem_append_right _ (List.mem_singleton_self _))
    cases hv
  | _ => rfl

private theorem Sampler.TotalOn.kind_of_bisection (h : TotalOn f P) (hs : P s) {bracket : Bracket}
    {cfg : BisectionConfig} {e : SolverError} (he : (bisection f bracket cfg s).1.result = .error e) :
    e.kind = .invalidArgument := by
  have hcalls := (Bisection.keeps h.succeeded_recorded (Recorded.succeeded_start hs) bracket cfg).2
  refine Bisection.failsFast.kind_of_succeeded (fun call hcall => ?_) he
  exact hcalls call (List.mem_reverse.mp hcall)

private theorem Sampler.TotalOn.kind_of_fixedPoint (h : TotalOn f P) (hs : P s) {x0 : Float}
    {cfg : FixedPointConfig} {e : SolverError} (he : (fixedPoint f x0 cfg s).1.result = .error e) :
    e.kind = .invalidArgument := by
  have hcalls := (FixedPoint.keeps h.succeeded_recorded (Recorded.succeeded_start hs) x0 cfg).2
  refine FixedPoint.failsFast.kind_of_succeeded (fun call hcall => ?_) he
  exact hcalls call (List.mem_reverse.mp hcall)

end

/-! ### Formulas -/

/-- A formula with a value everywhere has one behind its memo as well. -/
theorem Expression.evaluate_totalOn {formula : Formula} (h : ∀ x, ∃ v, formula.eval x = .ok v) :
    TotalOn evaluate fun e => e.formula = formula where
  value x e he := by
    subst he
    rcases evaluate_cases x e with ⟨-, hcall⟩ | ⟨_, value, -, -, hcall⟩ | ⟨_, -, -, hcall⟩
    · rw [hcall]
      exact h x
    · exact ⟨value, by rw [hcall]⟩
    · rw [hcall]
      exact h x
  kept _ _ he := he

private theorem Action.formula_of_mem_performAll {source : String} {e : Expression}
    (he : Expression.ofText source = .ok e) (actions : List Action) :
    ∀ slot ∈ (performAll actions [e]).2, slot.formula = e.formula := by
  have hmemo : e.memo = Expression.emptyMemo := by
    rw [(Expression.ofText_ok he).2]
    rfl
  have hstart : Kept e [[]] [e] := .cons (Expression.hasHistory_empty rfl hmemo) .nil
  have hkept := (performAll_of_kept hstart actions).2
  have hformulas := hkept.flip.imp fun slot history hs => And.intro hs.formula_eq hs
  exact ((List.forall₂_and_left _ _).mp hformulas).1

def IsReportOrRefusal {ρ : Type} (result : Except SolveError (Report ρ)) : Prop :=
  (∃ report, result = .ok report) ∨ ∃ e, result = .error (.solver e) ∧
    (SolveError.solver e).kind = .invalidArgument ∧ ∀ cause, e ≠ .arithmetic cause

private theorem isReportOrRefusal_mapError {ρ : Type} {result : Except SolverError (Report ρ)}
    (h : ∀ e, result = .error e → e.kind = .invalidArgument) :
    IsReportOrRefusal (result.mapError .solver) := by
  cases result with
  | ok report => exact .inl ⟨report, rfl⟩
  | error e =>
    have hkind := h e rfl
    refine .inr ⟨e, rfl, hkind, ?_⟩
    rintro cause rfl
    cases hkind

private theorem solveWith_of_ofText {ρ : Type} {source : String} {e : Expression}
    (he : Expression.ofText source = .ok e)
    (solver : Sampler Expression → Expression → Outcome SolverError ρ × Expression) :
    (solveWith source solver).result = (solver Expression.evaluate e).1.result.mapError .solver := by
  simp only [solveWith, he]

/-- A formula without a slash in its text never fails. It has a value at every point, whatever was done with
it and its copies before, and solving it gives a report unless the arguments of the solver are refused. -/
theorem solve_of_no_slash {source : String} {e : Expression} (he : Expression.ofText source = .ok e)
    (hslash : '/' ∉ source.toList) :
    (∀ actions, ∀ slot ∈ (Action.performAll actions [e]).2, ∀ x,
      (∃ v, (slot.evaluate x).1 = .ok v) ∧ ∃ v, (slot.evaluateUncached x).1 = .ok v) ∧
    (∀ bracket cfg, IsReportOrRefusal (solveBisection source bracket cfg).result) ∧
    (∀ x0 cfg, IsReportOrRefusal (solveFixedPoint source x0 cfg).result) := by
  have hvalue : ∀ x, ∃ v, e.formula.eval x = .ok v :=
    Formula.eval_ok_of_no_slash (Expression.ofText_ok he).1 hslash
  have htotal := Expression.evaluate_totalOn hvalue
  refine ⟨fun actions slot hslot x => ?_, fun bracket cfg => ?_, fun x0 cfg => ?_⟩
  · have hformula := Action.formula_of_mem_performAll he actions slot hslot
    refine ⟨htotal.value x slot hformula, ?_⟩
    rw [Expression.evaluateUncached, hformula]
    exact hvalue x
  · rw [solveBisection, solveWith_of_ofText he]
    exact isReportOrRefusal_mapError fun error => htotal.kind_of_bisection rfl
  · rw [solveFixedPoint, solveWith_of_ofText he]
    exact isReportOrRefusal_mapError fun error => htotal.kind_of_fixedPoint rfl

/-- A logarithm times a power with a negative exponent, evaluated outside the domain of the one and at the
pole of the other. -/
theorem solve_of_no_slash_pole :
    let e : Expression := .ofFormula ⟨"ln(x)*x^-1",
      .binary .mul (.call .ln .variable) (.binary .pow .variable (.negate (.number 1.0))), none⟩
    let actions : List Action := [.operate 0 (.evaluate 0.0), .clone 0, .operate 0 .clearCache]
    let slots := (Action.performAll actions [e]).2
    let cfg : BisectionConfig := ⟨⟨0.75, by decide +kernel⟩, 10⟩
    let steps : FixedPointConfig := ⟨⟨0.75, by decide +kernel⟩, 4, by decide⟩
    Expression.ofText "ln(x)*x^-1" = .ok e ∧ '/' ∉ "ln(x)*x^-1".toList ∧ slots.length = 2 ∧
    (∀ slot ∈ slots, (∃ v, (slot.evaluate 0.0).1 = .ok v) ∧
      ∃ v, (slot.evaluateUncached (-1.0)).1 = .ok v) ∧
    IsReportOrRefusal (solveBisection "ln(x)*x^-1" ⟨-1.0, 3.0⟩ cfg).result ∧
    IsReportOrRefusal (solveFixedPoint "ln(x)*x^-1" 0.0 steps).result := by
  intro e actions slots cfg steps
  have he : Expression.ofText "ln(x)*x^-1" = .ok e := Expression.ofText_of_formula (by decide +kernel)
  have hslash : '/' ∉ "ln(x)*x^-1".toList := by decide
  obtain ⟨hvalues, hbisection, hfixed⟩ := solve_of_no_slash he hslash
  refine ⟨he, hslash, rfl, fun slot hslot => ?_, hbisection _ cfg, hfixed _ steps⟩
  exact ⟨(hvalues actions slot hslot 0.0).1, (hvalues actions slot hslot (-1.0)).2⟩

end FormulaRoots
