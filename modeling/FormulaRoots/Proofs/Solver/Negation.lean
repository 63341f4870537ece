import FormulaRoots.Proofs.Binary64.Negation
import FormulaRoots.Proofs.Solver.Agreement
import FormulaRoots.Proofs.Solver.Signs

/-! Bisection does not tell a function from its negation: it asks both for the same points and halves alike,
whether a crossing goes up or down. The negated function is followed through the cache, whose stored values
are negated, and through the inquiry, which is told negated values. -/
namespace FormulaRoots
open Binary64

def Sampler.negated {σ : Type} (f : Sampler σ) : Sampler σ := fun x s =>
  ((f x s).1.map Neg.neg, (f x s).2)

/-! ### The cache -/

namespace MemoTable

/-- Tables whose stored values are negations of each other. -/
structure Mirrors (t u : MemoTable) : Prop where
  step_eq : t.step = u.step
  hits_eq : t.hits = u.hits
  misses_eq : t.misses = u.misses
  find?_eq : ∀ bucket, t.find? bucket = (u.find? bucket).map Neg.neg

namespace Mirrors
variable {t u : MemoTable}

private theorem countHit (h : t.Mirrors u) : t.countHit.Mirrors u.countHit :=
  ⟨h.step_eq, congrArg (· + 1) h.hits_eq, h.misses_eq, h.find?_eq⟩

private theorem countMiss (h : t.Mirrors u) : t.countMiss.Mirrors u.countMiss :=
  ⟨h.step_eq, h.hits_eq, congrArg (· + 1) h.misses_eq, h.find?_eq⟩

private theorem store (h : t.Mirrors u) (bucket value : Float) :
    (t.store bucket (-value)).Mirrors (u.store bucket value) := by
  refine ⟨h.step_eq, h.hits_eq, h.misses_eq, fun other => ?_⟩
  rw [find?_store, find?_store]
  by_cases hb : bucket = other
  · rw [if_pos hb, if_pos hb]
    rfl
  · rw [if_neg hb, if_neg hb]
    exact h.find?_eq other

private theorem learn (h : t.Mirrors u) (bucket : Float) (outcome : Except DivisionByZero Float) :
    (t.learn bucket (outcome.map Neg.neg)).Mirrors (u.learn bucket outcome) := by
  cases outcome with
  | error e => exact h.countMiss
  | ok value => exact h.countMiss.store bucket value

/-- One call through such tables, for a negated function and for the function itself. -/
theorem getOrCompute {σ : Type} (h : t.Mirrors u) (f : Sampler σ) (x : Float) (s : σ) :
    (t.getOrCompute f.negated x s).1 = (u.getOrCompute f x s).1.map Neg.neg ∧
    (t.getOrCompute f.negated x s).2.1.Mirrors (u.getOrCompute f x s).2.1 ∧
    (t.getOrCompute f.negated x s).2.2 = (u.getOrCompute f x s).2.2 := by
  have hbucket : t.bucket? x = u.bucket? x := congrArg (bucketOf · x) h.step_eq
  cases hb : u.bucket? x with
  | none =>
    rw [getOrCompute_of_no_bucket hb, getOrCompute_of_no_bucket (hbucket.trans hb)]
    exact ⟨rfl, h.countMiss, rfl⟩
  | some bucket =>
    have hfind := h.find?_eq bucket
    cases hv : u.find? bucket with
    | some value =>
      rw [hv] at hfind
      rw [getOrCompute_of_found hb hv, getOrCompute_of_found (hbucket.trans hb) hfind]
      exact ⟨rfl, h.countHit, rfl⟩
    | none =>
      rw [hv] at hfind
      rw [getOrCompute_of_absent hb hv, getOrCompute_of_absent (hbucket.trans hb) hfind]
      exact ⟨rfl, h.learn bucket (f bucket s).1, rfl⟩

end Mirrors

private theorem mirrors_ofStep (step : Float) (h : isRoundingStep step = true) :
    (ofStep step h).Mirrors (ofStep step h) := by
  refine ⟨rfl, rfl, rfl, fun bucket => ?_⟩
  have hempty : (ofStep step h).find? bucket = none := Std.TreeMap.getElem?_emptyc
  rw [hempty]
  rfl

end MemoTable

/-- Negation can be put before or behind the cache. -/
theorem SampleCache.sample_negated {σ : Type} (f : Sampler σ) :
    Sampler.Agree (sample f.negated) (sample f).negated
      (fun c d => c.table.Mirrors d.table ∧ c.source = d.source) (fun _ => True) where
  good_before _ _ h := h
  answer x c d hr _ := by
    obtain ⟨htable, hsource⟩ := hr
    unfold sample
    rw [hsource]
    exact (htable.getOrCompute f x d.source).1
  related x c d hr _ := by
    obtain ⟨htable, hsource⟩ := hr
    unfold sample
    rw [hsource]
    exact (htable.getOrCompute f x d.source).2

/-! ### The inquiry -/

namespace Inquiry
variable {α β σ : Type}

def negated : Inquiry α → Inquiry α
  | done result => done result
  | ask x next => ask x fun outcome => (next (outcome.map Neg.neg)).negated

private theorem run_negated (f : Sampler σ) (q : Inquiry α) (s : σ) :
    q.run f.negated s = q.negated.run f s := by
  induction q generalizing s with
  | done result => rfl
  | ask x next ih => exact ih ((f x s).1.map Neg.neg) (f x s).2

private theorem negated_map (h : α → β) (q : Inquiry α) : (q.map h).negated = q.negated.map h := by
  induction q with
  | done result => rfl
  | ask x next ih => exact congrArg (ask x) (funext fun outcome => ih (outcome.map Neg.neg))

private theorem negated_ite (c : Prop) [Decidable c] (q r : Inquiry α) :
    (if c then q else r).negated = if c then q.negated else r.negated :=
  apply_ite negated c q r

end Inquiry

/-! ### Signs -/

private theorem oppositeSigns_neg (u v : Float) : OppositeSigns (-u) (-v) ↔ OppositeSigns u v := by
  rw [OppositeSigns, OppositeSigns, neg_lt_zero_iff, neg_lt_zero_iff, zero_lt_neg_iff, zero_lt_neg_iff]
  exact or_comm

private theorem changesSign_neg (u v : Float) : changesSign (-u) (-v) = changesSign u v := by
  rw [Bool.eq_iff_iff, changesSign_iff, changesSign_iff, oppositeSigns_neg]

private theorem Bracket.half_neg (b : Bracket) (u v : Float) : b.half (-u) (-v) = b.half u v := by
  rw [half, half, changesSign_neg]

/-! ### Courses and reports -/

def BisectionRecord.negated (r : BisectionRecord) : BisectionRecord :=
  { r with fMid := -r.fMid }

def Report.negated (r : Report BisectionRecord) : Report BisectionRecord :=
  { r with fRoot := -r.fRoot, trace := r.trace.map BisectionRecord.negated }

def SolverError.negated : SolverError → SolverError
  | noSignChange a b fa fb => noSignChange a b (-fa) (-fb)
  | e => e

/-- The advice for a graph that is turned upside down. -/
def BracketHint.mirrored : BracketHint → BracketHint
  | lowerTheLowerBound => raiseTheUpperBound
  | raiseTheUpperBound => lowerTheLowerBound
  | indeterminate => indeterminate

private theorem SolverError.hint?_negated (e : SolverError) :
    e.negated.hint? = e.hint?.map BracketHint.mirrored := by
  cases e with
  | noSignChange a b fa fb =>
    simp only [negated, hint?, zero_lt_neg_iff, neg_lt_zero_iff, Option.map_some, Option.some.injEq]
    by_cases hpos : 0.0 < fa ∧ 0.0 < fb
    · have hneg : ¬ (fa < 0.0 ∧ fb < 0.0) := fun h => lt_asymm h.1 hpos.1
      rw [if_neg hneg, if_pos hpos, if_pos hpos]
      rfl
    · rw [if_neg hpos, if_neg hpos]
      split <;> rfl
  | _ => rfl

namespace Bisection

def Descent.negated (d : Descent) : Descent :=
  { d with records := d.records.map BisectionRecord.negated }

def Course.negated : Course → Course
  | endFailed e => endFailed e
  | endpoint root value => endpoint root (-value)
  | noSignChange fa fb => noSignChange (-fa) (-fb)
  | narrow midpoint outcome => narrow midpoint (outcome.map Neg.neg)
  | halved fa d => halved (-fa) d.negated

private theorem descent_negated (tol : Float) (budget iteration : Nat) (bracket : Bracket)
    (fLeft : Float) :
    (descent tol budget iteration bracket (-fLeft)).negated =
      (descent tol budget iteration bracket fLeft).map Descent.negated := by
  induction budget generalizing iteration bracket fLeft with
  | zero => rfl
  | succ budget ih =>
    unfold descent
    rw [Inquiry.negated_ite, Inquiry.map_ite]
    refine congrArg₂ (ite _) (congrArg (Inquiry.ask _) (funext fun outcome => ?_)) rfl
    cases outcome with
    | error e => rfl
    | ok fMid =>
      -- the value at the left end stays negated, whichever of the two it is
      have hkept : (if changesSign fLeft fMid = true then -fLeft else -fMid) =
          -(if changesSign fLeft fMid = true then fLeft else fMid) := (apply_ite Neg.neg ..).symm
      simp only [Except.map, abs_neg, Bracket.half_neg, changesSign_neg, hkept, ih, Inquiry.negated_ite,
        Inquiry.negated_map, Inquiry.map_ite, Inquiry.map_map]
      rfl

/-- A bisection takes the same course for negated values, with its values negated. -/
theorem exploration_negated (bracket : Bracket) (cfg : BisectionConfig) :
    (exploration bracket cfg).negated = (exploration bracket cfg).map Course.negated := by
  unfold exploration
  refine congrArg (Inquiry.ask _) (funext fun outcome => ?_)
  cases outcome with
  | error e => rfl
  | ok fa =>
    refine congrArg (Inquiry.ask _) (funext fun outcome => ?_)
    cases outcome with
    | error e => rfl
    | ok fb =>
      simp only [Except.map, abs_neg, changesSign_neg, Inquiry.negated_ite, Inquiry.negated_map,
        Inquiry.map_ite, Inquiry.map_map, descent_negated]
      rfl

private theorem Descent.last_negated (d : Descent) (bracket : Bracket) (fa : Float) :
    d.negated.last bracket (-fa) = ((d.last bracket fa).1, -(d.last bracket fa).2) := by
  rw [last, last, negated, List.getLast?_map]
  cases d.records.getLast? <;> rfl

theorem Course.result_negated (course : Course) (bracket : Bracket) (evaluations hits : Nat) :
    course.negated.result bracket evaluations hits =
      ((course.result bracket evaluations hits).map Report.negated).mapError SolverError.negated := by
  cases course with
  | endFailed e => rfl
  | endpoint root value => rfl
  | noSignChange fa fb => rfl
  | narrow midpoint outcome => cases outcome <;> rfl
  | halved fa d =>
    simp only [negated, result, Descent.last_negated]
    have hending : d.negated.ending = d.ending := rfl
    rw [hending]
    cases d.ending <;> rfl

private theorem run_exploration_negated {σ : Type} (f : Sampler σ) (bracket : Bracket)
    (cfg : BisectionConfig)
    (hs : isRoundingStep (SampleCache.stepFor cfg.tolerance.value) = true) (s : σ) :
    let cache : SampleCache σ := .fresh cfg.tolerance hs s
    let r := (exploration bracket cfg).run (SampleCache.sample f) cache
    let r' := (exploration bracket cfg).run (SampleCache.sample f.negated) cache
    r'.1 = r.1.negated ∧ r'.2.evaluations = r.2.evaluations ∧ r'.2.hits = r.2.hits ∧
      r'.2.source = r.2.source := by
  intro cache r r'
  have hmirrors := MemoTable.mirrors_ofStep _ hs
  obtain ⟨hcourse, htable, hsource⟩ := (SampleCache.sample_negated f).run (exploration bracket cfg)
    cache cache ⟨hmirrors, rfl⟩ trivial
  have hrun : (exploration bracket cfg).run (SampleCache.sample f).negated cache = (r.1.negated, r.2) := by
    rw [Inquiry.run_negated, exploration_negated, Inquiry.run_map]
  rw [hrun] at hcourse htable hsource
  exact ⟨hcourse, htable.misses_eq, htable.hits_eq, hsource⟩

end Bisection

/-- The bisection of a negated function gives the same report with its values negated, or the same error,
where the values at the ends are negated and the advice is mirrored. Both functions are left in the same
state. -/
theorem bisection_negated {σ : Type} (f : Sampler σ) (bracket : Bracket) (cfg : BisectionConfig) (s : σ) :
    (bisection f.negated bracket cfg s).1.result =
      ((bisection f bracket cfg s).1.result.map Report.negated).mapError SolverError.negated ∧
    (bisection f.negated bracket cfg s).2 = (bisection f bracket cfg s).2 ∧
    ∀ e : SolverError, e.negated.hint? = e.hint?.map BracketHint.mirrored := by
  refine and_assoc.mp ⟨?_, SolverError.hint?_negated⟩
  by_cases hb : bracket.isProper = true
  · by_cases hs : isRoundingStep (SampleCache.stepFor cfg.tolerance.value) = true
    · obtain ⟨hcourse, hevaluations, hhits, hsource⟩ :=
        Bisection.run_exploration_negated f bracket cfg hs s
      rw [Bisection.bisection_of_step hb hs, Bisection.bisection_of_step hb hs]
      simp only [hcourse, hevaluations, hhits, hsource, Bisection.Course.result_negated, and_self]
    · rw [Bisection.bisection_of_no_step hb hs, Bisection.bisection_of_no_step hb hs]
      exact ⟨rfl, rfl⟩
  · rw [Bisection.bisection_of_improper hb, Bisection.bisection_of_improper hb]
    exact ⟨rfl, rfl⟩

end FormulaRoots
