import FormulaRoots.Proofs.Solver.StepLimit

/-! What is found by evaluating the function again at the root of a fixed-point iteration. The value and the error
in a report are those at the rounded root, so they are confirmed if the function does not tell the root from the
rounded one. -/
namespace FormulaRoots
open MemoTable Sampler

def Report.ConfirmedBy (report : Report FixedPointRecord) (f : Float → Except DivisionByZero Float) : Prop :=
  ∃ v, f report.root = .ok v ∧ report.fRoot = v ∧ report.finalError? = some (v - report.root).abs

namespace FixedPoint
variable {σ : Type} {g : Sampler σ} {f : Float → Except DivisionByZero Float} {x0 : Float}
  {cfg : FixedPointConfig} {s : σ}

private theorem outcome_of_mem_samples (hg : ∀ x s, (g x s).1 = f x) :
    ∀ call ∈ samples g x0 cfg s,
      call.outcome = f (representative (SampleCache.stepFor cfg.tolerance.value) call.argument) := by
  by_cases hs : isRoundingStep (SampleCache.stepFor cfg.tolerance.value) = true
  · let step := SampleCache.stepFor cfg.tolerance.value
    obtain ⟨-, -, hcalls⟩ := (iteration cfg.tolerance.value cfg.maxIter 1 x0).keeps_run
      (f := recorded (SampleCache.sample g))
      (P := fun r => r.state.table.Holds f ∧ r.state.table.step = step ∧
        ∀ call ∈ r.calls, call.outcome = f (representative step call.argument))
      (fun x r => by
        rintro ⟨hholds, hstep, hcalls⟩
        obtain ⟨hanswer, hholds', hstep'⟩ := hholds.getOrCompute hg x r.state.source
        rw [hstep] at hanswer
        exact ⟨hholds', hstep'.trans hstep, List.forall_mem_cons.mpr ⟨hanswer, hcalls⟩⟩)
      (s := .start (.fresh cfg.tolerance hs s))
      ⟨holds_ofStep step hs f, rfl, List.forall_mem_nil _⟩
    rw [(result_and_samples g x0 cfg s hs).2, iterate_eq_run]
    intro call hcall
    exact hcalls call (List.mem_reverse.mp hcall)
  · rw [samples_of_no_step hs]
    exact List.forall_mem_nil _

/-- The value and the error that a report gives are those of the function at the rounded root. So they are
confirmed at the root itself if and only if the function has the same outcome at both. -/
theorem confirmed_iff_same_outcome (hg : ∀ x s, (g x s).1 = f x) {report : Report FixedPointRecord}
    (h : (fixedPoint g x0 cfg s).1.result = .ok report) :
    let rounded := representative (cfg.tolerance.value * 0.01) report.root
    f rounded = .ok report.fRoot ∧ report.finalError? = some (report.fRoot - report.root).abs ∧
      (report.ConfirmedBy f ↔ f report.root = f rounded) := by
  intro rounded
  obtain ⟨c, hsteps, hreported⟩ := steps_of_ok h
  have hrecounts := hsteps.recounts cfg.maxIter_pos hreported
  obtain ⟨r, hlast, hroot, hvalue, herror, -⟩ := hrecounts.last
  have hr : r ∈ report.trace := List.mem_of_getLast? hlast
  have hsample : r.call ∈ samples g x0 cfg s := by
    rw [hrecounts.samples_eq]
    exact List.mem_map_of_mem hr
  have hrounded : f rounded = .ok report.fRoot := by
    have houtcome := outcome_of_mem_samples hg r.call hsample
    simp only [rounded, hroot, hvalue]
    exact houtcome.symm
  have hfinal : report.finalError? = some (report.fRoot - report.root).abs := by
    rw [herror, hrecounts.error r hr, hvalue, hroot]
  refine ⟨hrounded, hfinal, ?_⟩
  constructor
  · rintro ⟨v, hv, rfl, -⟩
    rw [hv, hrounded]
  · intro hsame
    exact ⟨report.fRoot, hsame.trans hrounded, rfl, hfinal⟩

/-- A function that is constant between multiples of a hundredth of the tolerance is confirmed at a root that is
none of them. -/
theorem confirmed_iff_same_outcome_staircase :
    let f : Float → Except DivisionByZero Float := fun x => .ok (if x < 0.5 then 0.25 else 2.0)
    let g : Sampler Nat := fun x n => (f x, n + 1)
    let cfg : FixedPointConfig := ⟨⟨3.125, by decide +kernel⟩, 9, by decide⟩
    let report : Report FixedPointRecord := ⟨0.00390625, 0.25, 1, 0, .stepSizeReached, .fixedPoint,
      [⟨1, 0.00390625, 0.25, 0.24609375⟩]⟩
    (∀ x n, (g x n).1 = f x) ∧ (fixedPoint g 0.00390625 cfg 0).1.result = .ok report ∧
    representative (3.125 * 0.01) report.root ≠ report.root ∧ report.ConfirmedBy f := by
  intro f g cfg report
  have hg : ∀ x n, (g x n).1 = f x := fun _ _ => rfl
  have hresult : (fixedPoint g 0.00390625 cfg 0).1.result = .ok report := ok_of_toOption (by decide +kernel)
  obtain ⟨-, -, hconfirmed⟩ := confirmed_iff_same_outcome hg hresult
  refine ⟨hg, hresult, by decide +kernel, hconfirmed.mpr ?_⟩
  exact congrArg Except.ok (by decide +kernel)

/-- A report can give a short last step where the function, evaluated at the root, makes a long one: of `1000 x`
the report from 0.00390625 on gives the value at 0, which is the rounded root. -/
theorem not_confirmed_of_steep :
    let f : Float → Except DivisionByZero Float := fun x => .ok (1000.0 * x)
    let cfg : FixedPointConfig := ⟨⟨3.125, by decide +kernel⟩, 1, by decide⟩
    let report : Report FixedPointRecord := ⟨0.00390625, 0.0, 1, 0, .stepSizeReached, .fixedPoint,
      [⟨1, 0.00390625, 0.0, 0.00390625⟩]⟩
    (fixedPoint (Sampler.pure f) 0.00390625 cfg ()).1.result = .ok report ∧ report.root.isFinite = true ∧
    report.finalError? = some 0.00390625 ∧ f report.root = .ok 3.90625 ∧
    ¬ ((3.90625 : Float) - report.root).abs < cfg.tolerance.value ∧
    ¬ ∀ (f : Float → Except DivisionByZero Float) x0 cfg report,
      (fixedPoint (Sampler.pure f) x0 cfg ()).1.result = .ok report → report.root.isFinite = true →
        report.ConfirmedBy f := by
  intro f cfg report
  have hresult : (fixedPoint (Sampler.pure f) 0.00390625 cfg ()).1.result = .ok report :=
    ok_of_toOption (by decide +kernel)
  have hfinite : report.root.isFinite = true := by decide +kernel
  have hroot : f report.root = .ok 3.90625 := congrArg Except.ok (by decide +kernel)
  refine ⟨hresult, hfinite, rfl, hroot, by decide +kernel, fun h => ?_⟩
  obtain ⟨v, hv, hvalue, -⟩ := h f 0.00390625 cfg report hresult hfinite
  obtain rfl : (3.90625 : Float) = v := Except.ok.inj (hroot.symm.trans hv)
  revert hvalue
  decide +kernel

end FixedPoint
end FormulaRoots
