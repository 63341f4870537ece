import FormulaRoots.Proofs.Formula.Memo
import FormulaRoots.Proofs.Formula.Text
import FormulaRoots.Proofs.Memo.Holding
import FormulaRoots.Proofs.Solver.Inquiries
import FormulaRoots.Solver.Solve

/-! The solvers without their cache, and without the memo of a formula. For a function whose outcome
depends on its argument alone, the cache changes nothing but the counts of samples, and the memo
changes nothing where the arguments in one bucket have one value. -/
namespace FormulaRoots
variable {ε ρ σ : Type}

/-- A report that does not tell calls from stored values. -/
def Report.withoutCounts (r : Report ρ) : Report ρ :=
  { r with evaluations := 0, cacheHits := 0 }

def Outcome.withoutCounts (o : Outcome ε ρ) : Outcome ε ρ :=
  { o with result := o.result.map Report.withoutCounts }

open Bisection in
/-- Bisection in which every sample is a call of `f` at the representative of its argument. -/
def bisectionUncached (f : Sampler σ) (bracket : Bracket) (cfg : BisectionConfig) (s : σ) :
    Outcome SolverError BisectionRecord × σ :=
  let step := cfg.tolerance.value * 0.01
  if !bracket.isProper then (⟨.error (.invalidBounds bracket.left bracket.right), []⟩, s)
  else if !isRoundingStep step then
    (⟨.error (.degenerateCacheStep cfg.tolerance.value step), caution bracket cfg⟩, s)
  else
    let (course, s) := explore (Sampler.rounded step f) bracket cfg s
    (⟨course.result bracket 0 0, caution bracket cfg ++ course.log bracket cfg⟩, s)

open FixedPoint in
/-- Fixed-point iteration in which every sample is a call of `g` at the representative of its
argument. -/
def fixedPointUncached (g : Sampler σ) (x0 : Float) (cfg : FixedPointConfig) (s : σ) :
    Outcome SolverError FixedPointRecord × σ :=
  let step := cfg.tolerance.value * 0.01
  if !isRoundingStep step then
    (⟨.error (.degenerateCacheStep cfg.tolerance.value step), []⟩, s)
  else
    let (course, s) := iterate (Sampler.rounded step g) cfg.tolerance.value cfg.maxIter 1 x0 s
    (⟨course.result x0 0 0, course.log x0 cfg⟩, s)

/-- The counts of a bisection enter its report and nothing else. -/
theorem Bisection.Course.result_withoutCounts (course : Course) (bracket : Bracket) (m n : Nat) :
    (course.result bracket m n).map Report.withoutCounts = course.result bracket 0 0 := by
  cases course with
  | endFailed e => rfl
  | endpoint root value => rfl
  | noSignChange fa fb => rfl
  | narrow midpoint outcome => cases outcome <;> rfl
  | halved fa d =>
    simp only [Course.result]
    cases d.ending <;> rfl

/-- The counts of a fixed-point iteration enter its report and nothing else. -/
theorem FixedPoint.Course.result_withoutCounts (c : Course) (x0 : Float) (m n : Nat) :
    (c.result x0 m n).map Report.withoutCounts = c.result x0 0 0 := by
  simp only [Course.result]
  cases c.ending <;> rfl

private theorem bisection_uncached {f : Sampler σ} {g : Float → Except DivisionByZero Float}
    (hf : ∀ x s, (f x s).1 = g x) (bracket : Bracket) (cfg : BisectionConfig) (s : σ) :
    (bisection f bracket cfg s).1.withoutCounts = (bisectionUncached f bracket cfg s).1 := by
  by_cases hb : bracket.isProper = true
  · by_cases hs : isRoundingStep (cfg.tolerance.value * 0.01) = true
    · have hrun := (SampleCache.sample_agree_rounded hf _).run (Bisection.exploration bracket cfg)
        (.fresh cfg.tolerance hs s) s ⟨MemoTable.holds_ofStep _ hs g, rfl⟩ trivial
      rw [Bisection.bisection_of_step hb hs]
      simp only [bisectionUncached, hb, hs, Bisection.explore_eq_run, Outcome.withoutCounts, hrun.1,
        Bisection.Course.result_withoutCounts]
      rfl
    · rw [Bisection.bisection_of_no_step hb hs]
      simp only [bisectionUncached, hb, hs]
      rfl
  · rw [Bisection.bisection_of_improper hb]
    simp only [bisectionUncached, hb]
    rfl

private theorem fixedPoint_uncached {f : Sampler σ} {g : Float → Except DivisionByZero Float}
    (hf : ∀ x s, (f x s).1 = g x) (x0 : Float) (cfg : FixedPointConfig) (s : σ) :
    (fixedPoint f x0 cfg s).1.withoutCounts = (fixedPointUncached f x0 cfg s).1 := by
  by_cases hs : isRoundingStep (cfg.tolerance.value * 0.01) = true
  · have hrun := (SampleCache.sample_agree_rounded hf _).run
      (FixedPoint.iteration cfg.tolerance.value cfg.maxIter 1 x0)
      (.fresh cfg.tolerance hs s) s ⟨MemoTable.holds_ofStep _ hs g, rfl⟩ trivial
    rw [FixedPoint.fixedPoint_of_step hs]
    simp only [fixedPointUncached, hs, FixedPoint.iterate_eq_run, Outcome.withoutCounts, hrun.1,
      FixedPoint.Course.result_withoutCounts]
    rfl
  · rw [FixedPoint.fixedPoint_of_no_step hs]
    simp only [fixedPointUncached, hs]
    rfl

/-- For a function whose outcome depends on its argument alone, each solver gives the error, or the
report up to its counts, and the messages of the same algorithm that calls the function at the rounded
argument for every sample. -/
theorem solvers_eq_uncached (f : Sampler σ) (g : Float → Except DivisionByZero Float)
    (hf : ∀ x s, (f x s).1 = g x) (s : σ) :
    (∀ bracket cfg,
      (bisection f bracket cfg s).1.withoutCounts = (bisectionUncached f bracket cfg s).1) ∧
    (∀ x0 cfg,
      (fixedPoint f x0 cfg s).1.withoutCounts = (fixedPointUncached f x0 cfg s).1) :=
  ⟨fun bracket cfg => bisection_uncached hf bracket cfg s,
    fun x0 cfg => fixedPoint_uncached hf x0 cfg s⟩

/-- A function whose state counts its calls is covered: on `[1, 2]`, with half a unit as the tolerance,
`x * x - 2` is halved once, and the report differs from the uncached one in its counts. -/
theorem solvers_eq_uncached_counting :
    let f : Sampler Nat := fun x n => (.ok (x * x - 2.0), n + 1)
    let cfg : BisectionConfig := ⟨⟨0.5, by decide +kernel⟩, 10⟩
    let steps : FixedPointConfig := ⟨⟨0.5, by decide +kernel⟩, 4, by decide⟩
    (∀ x n, (f x n).1 = .ok (x * x - 2.0)) ∧
    (bisection f ⟨1.0, 2.0⟩ cfg 0).1.withoutCounts = (bisectionUncached f ⟨1.0, 2.0⟩ cfg 0).1 ∧
    (fixedPoint f 2.0 steps 0).1.withoutCounts = (fixedPointUncached f 2.0 steps 0).1 ∧
    (bisection f ⟨1.0, 2.0⟩ cfg 0).1.result.toOption =
      some ⟨1.5, 0.25, 3, 0, .absFxReached, .bisection, [⟨1, 1.0, 2.0, 1.5, 0.25, 1.0⟩]⟩ := by
  intro f cfg steps
  have hf : ∀ x n, (f x n).1 = .ok (x * x - 2.0) := fun _ _ => rfl
  obtain ⟨hbisection, hfixed⟩ := solvers_eq_uncached f _ hf 0
  exact ⟨hf, hbisection ⟨1.0, 2.0⟩ cfg, hfixed 2.0 steps, by decide +kernel⟩

open Sampler

/-- The memo is seen by no solver whose calls without it are consistent: if the arguments in one
bucket have one value, solving a formula gives the very result of the solver on its unmemoised
values. -/
theorem solve_eq_uncached_of_consistent {source : String} {e : Expression}
    (he : Expression.ofText source = .ok e) :
    (∀ bracket cfg,
      e.formula.ConsistentOn
        (bisection (recorded Expression.evaluateUncached) bracket cfg (.start e)).2.arguments →
      (solveBisection source bracket cfg).result =
        (bisection Expression.evaluateUncached bracket cfg e).1.result.mapError .solver) ∧
    (∀ x0 cfg,
      e.formula.ConsistentOn
        (fixedPoint (recorded Expression.evaluateUncached) x0 cfg (.start e)).2.arguments →
      (solveFixedPoint source x0 cfg).result =
        (fixedPoint Expression.evaluateUncached x0 cfg e).1.result.mapError .solver) := by
  have hagree := Expression.evaluate_agree e.formula
  have hrecord := agree_recorded Expression.evaluateUncached
  have hstart : Expression.Recalls e.formula e (.start e) := by
    rw [(Expression.ofText_ok he).2]
    exact Expression.recalls_start e.formula
  refine ⟨fun bracket cfg hc => ?_, fun x0 cfg hc => ?_⟩
  · have hmemo := hagree.bisection bracket cfg hstart hc
    have hplain := hrecord.bisection bracket cfg (s := e) (t := .start e) rfl trivial
    simp only [solveBisection, solveWith, he, hmemo, hplain]
  · have hmemo := hagree.fixedPoint x0 cfg hstart hc
    have hplain := hrecord.fixedPoint x0 cfg (s := e) (t := .start e) rfl trivial
    simp only [solveFixedPoint, solveWith, he, hmemo, hplain]

/-- The samples of `x * x - 2` on `[1, 2]` fall into different buckets, and so do those of `x / 2` from
1 on, down to a step of less than a tenth. -/
theorem solve_eq_uncached_square_half :
    let square : Expression := .ofFormula
      ⟨"x*x-2", .binary .sub (.binary .mul .variable .variable) (.number 2.0), none⟩
    let half : Expression := .ofFormula ⟨"x/2", .binary .div .variable (.number 2.0), none⟩
    let cfg : BisectionConfig := ⟨⟨0.5, by decide +kernel⟩, 10⟩
    let steps : FixedPointConfig := ⟨⟨0.1, by decide +kernel⟩, 9, by decide⟩
    (solveBisection "x*x-2" ⟨1.0, 2.0⟩ cfg).result =
      (bisection Expression.evaluateUncached ⟨1.0, 2.0⟩ cfg square).1.result.mapError .solver ∧
    (solveFixedPoint "x/2" 1.0 steps).result =
      (fixedPoint Expression.evaluateUncached 1.0 steps half).1.result.mapError .solver := by
  intro square half cfg steps
  have hsquare : Expression.ofText "x*x-2" = .ok square :=
    Expression.ofText_of_formula (by decide +kernel)
  have hhalf : Expression.ofText "x/2" = .ok half :=
    Expression.ofText_of_formula (by decide +kernel)
  refine ⟨(solve_eq_uncached_of_consistent hsquare).1 ⟨1.0, 2.0⟩ cfg ?_,
    (solve_eq_uncached_of_consistent hhalf).2 1.0 steps ?_⟩
  · exact Formula.consistentOn_of_buckets_ne _ (by decide +kernel)
  · exact Formula.consistentOn_of_buckets_ne _ (by decide +kernel)

/-- Within one bucket the memo is seen. On an interval as narrow as this one both ends get the value at
the left end, so a root is missed; and a sequence that shrinks to 0 is held up as soon as two of its
members share a bucket. -/
theorem solve_ne_uncached :
    (¬ ∀ source e, Expression.ofText source = .ok e → ∀ bracket cfg,
      (solveBisection source bracket cfg).result =
        (bisection Expression.evaluateUncached bracket cfg e).1.result.mapError .solver) ∧
    (¬ ∀ source e, Expression.ofText source = .ok e → ∀ x0 cfg,
      (solveFixedPoint source x0 cfg).result =
        (fixedPoint Expression.evaluateUncached x0 cfg e).1.result.mapError .solver) := by
  constructor
  · intro h
    let formula : Formula := ⟨"x-3e-11", .binary .sub .variable (.number 3e-11), none⟩
    have he : Expression.ofText "x-3e-11" = .ok (.ofFormula formula) :=
      Expression.ofText_of_formula (by decide +kernel)
    have hsame := congrArg Except.toOption
      (h "x-3e-11" _ he ⟨0.0, 4e-11⟩ ⟨⟨1e-12, by decide +kernel⟩, 10⟩)
    revert hsame
    decide +kernel
  · intro h
    let formula : Formula := ⟨"x/2", .binary .div .variable (.number 2.0), none⟩
    have he : Expression.ofText "x/2" = .ok (.ofFormula formula) :=
      Expression.ofText_of_formula (by decide +kernel)
    have hsame := congrArg Except.toOption
      (h "x/2" _ he 4e-11 ⟨⟨1e-12, by decide +kernel⟩, 100, by decide⟩)
    revert hsame
    decide +kernel

end FormulaRoots
