import FormulaRoots.Proofs.Formula.Memo
import FormulaRoots.Proofs.Formula.Text
import Mathlib.Data.List.Forall2

/-! Expressions and their copies in use. The arguments at which an expression was evaluated since its
memo was last empty determine its answers and its counters; a copy inherits them. -/
namespace FormulaRoots
open MemoTable Expression

namespace Formula

def gives (formula : Formula) (bucket y : Float) : Bool :=
  decide (bucketOf 1e-10 y = some bucket) && (formula.eval y).toOption.isSome

def first? (formula : Formula) (history : List Float) (x : Float) : Option Float :=
  (bucketOf 1e-10 x).bind fun bucket => history.find? (formula.gives bucket)

def standIn (formula : Formula) (history : List Float) (x : Float) : Float :=
  (formula.first? history x).getD x

def answered (formula : Formula) (history : List Float) : Nat :=
  history.zipIdx.countP fun p => (formula.first? (history.take p.2) p.1).isSome

section
variable {formula : Formula} {history : List Float} {bucket x : Float}

theorem gives_iff : formula.gives bucket x = true ↔
    bucketOf 1e-10 x = some bucket ∧ ∃ value, formula.eval x = .ok value := by
  rw [gives, Bool.and_eq_true_iff, decide_eq_true_iff, isSome_toOption_iff]

theorem first?_of_bucket (hb : bucketOf 1e-10 x = some bucket) :
    formula.first? history x = history.find? (formula.gives bucket) := by
  rw [first?, hb, Option.bind_some]

private theorem find?_gives_append_of_not (history : List Float) (h : ¬ formula.gives bucket x = true) :
    (history ++ [x]).find? (formula.gives bucket) = history.find? (formula.gives bucket) := by
  rw [List.find?_append, List.find?_singleton, if_neg h, Option.or_none]

private theorem find?_gives_append_of_ne (history : List Float) (h : bucketOf 1e-10 x ≠ some bucket) :
    (history ++ [x]).find? (formula.gives bucket) = history.find? (formula.gives bucket) :=
  find?_gives_append_of_not history fun hg => h (gives_iff.mp hg).1

private theorem find?_gives_append_of_some {y : Float}
    (h : history.find? (formula.gives bucket) = some y)
    (x : Float) : (history ++ [x]).find? (formula.gives bucket) = some y := by
  rw [List.find?_append, h, Option.some_or]

private theorem find?_gives_append_of_none (h : history.find? (formula.gives bucket) = none)
    (hx : formula.gives bucket x = true) :
    (history ++ [x]).find? (formula.gives bucket) = some x := by
  rw [List.find?_append, h, Option.none_or, List.find?_singleton, if_pos hx]

private theorem answered_append (formula : Formula) (history : List Float) (x : Float) :
    formula.answered (history ++ [x]) =
      formula.answered history + if (formula.first? history x).isSome then 1 else 0 := by
  rw [answered, List.zipIdx_append, List.countP_append, List.zipIdx_singleton, List.countP_singleton,
    Nat.zero_add, List.take_left]
  congr 1
  refine List.countP_congr fun p hp => ?_
  have hlt : p.2 < history.length := List.snd_lt_of_mem_zipIdx hp
  rw [List.take_append_of_le_length (Nat.le_of_lt hlt)]

end
end Formula

namespace Expression

structure HasHistory (formula : Formula) (history : List Float) (e : Expression) : Prop where
  formula_eq : e.formula = formula
  step_eq : e.memo.step = 1e-10
  find?_eq : ∀ bucket, e.memo.find? bucket =
    (history.find? (formula.gives bucket)).bind fun y => (formula.eval y).toOption
  counted : e.evaluations + e.cacheHits = history.length
  hits_eq : e.cacheHits = formula.answered history

theorem hasHistory_empty {formula : Formula} {e : Expression} (hformula : e.formula = formula)
    (hmemo : e.memo = emptyMemo) : HasHistory formula [] e where
  formula_eq := hformula
  step_eq := by
    rw [hmemo]
    rfl
  find?_eq bucket := by
    rw [hmemo]
    simp [MemoTable.find?, emptyMemo, MemoTable.ofStep]
  counted := by
    rw [evaluations, cacheHits, hmemo]
    rfl
  hits_eq := by
    rw [cacheHits, hmemo]
    rfl

section
variable {formula : Formula} {history : List Float} {e : Expression} {x : Float}

private theorem HasHistory.found (h : e.HasHistory formula history) {bucket value : Float}
    (hv : e.memo.find? bucket = some value) :
    ∃ y, history.find? (formula.gives bucket) = some y ∧ formula.eval y = .ok value := by
  rw [h.find?_eq, Option.bind_eq_some_iff] at hv
  obtain ⟨y, hy, hvalue⟩ := hv
  exact ⟨y, hy, ok_of_toOption hvalue⟩

private theorem HasHistory.absent (h : e.HasHistory formula history) {bucket : Float}
    (hv : e.memo.find? bucket = none) : history.find? (formula.gives bucket) = none := by
  cases hf : history.find? (formula.gives bucket) with
  | none => rfl
  | some y =>
    obtain ⟨-, value, hvalue⟩ := Formula.gives_iff.mp (List.find?_some hf)
    rw [h.find?_eq, hf, Option.bind_some, hvalue] at hv
    cases hv

private theorem HasHistory.find?_learn (h : e.HasHistory formula history) {bucket : Float}
    (hb : bucketOf 1e-10 x = some bucket) (hv : e.memo.find? bucket = none) (other : Float) :
    (e.memo.learn bucket (formula.eval x)).find? other =
      ((history ++ [x]).find? (formula.gives other)).bind fun y => (formula.eval y).toOption := by
  cases hc : formula.eval x with
  | error cause =>
    have hnot : ¬ formula.gives other x = true := by
      rw [Formula.gives_iff, hc]
      rintro ⟨-, value, hvalue⟩
      cases hvalue
    rw [Formula.find?_gives_append_of_not history hnot]
    exact h.find?_eq other
  | ok value =>
    rw [learn, find?_store]
    by_cases hother : bucket = other
    · subst hother
      rw [if_pos rfl, Formula.find?_gives_append_of_none (h.absent hv)
        (Formula.gives_iff.mpr ⟨hb, value, hc⟩), Option.bind_some, hc]
      rfl
    · have hne : bucketOf 1e-10 x ≠ some other := by rwa [hb, Ne, Option.some.injEq]
      rw [if_neg hother, Formula.find?_gives_append_of_ne history hne]
      exact h.find?_eq other

/-- An evaluation at `x` adds to the history, if the memo was asked and the call was counted. -/
theorem HasHistory.append (h : e.HasHistory formula history) {memo : MemoTable}
    (hstep : memo.step = e.memo.step)
    (hfind : ∀ bucket, memo.find? bucket =
      ((history ++ [x]).find? (formula.gives bucket)).bind fun y => (formula.eval y).toOption)
    (counted : memo.misses + memo.hits = e.memo.misses + e.memo.hits + 1)
    (hits : memo.hits = e.memo.hits + if (formula.first? history x).isSome then 1 else 0) :
    HasHistory formula (history ++ [x]) { e with memo } where
  formula_eq := h.formula_eq
  step_eq := hstep.trans h.step_eq
  find?_eq := hfind
  counted := by
    rw [List.length_append, ← h.counted]
    exact counted
  hits_eq := by
    rw [Formula.answered_append, ← h.hits_eq]
    exact hits

/-- Evaluating adds to the history, and what it was before determines the answer. -/
theorem HasHistory.evaluate (h : e.HasHistory formula history) (x : Float) :
    (e.evaluate x).1 = formula.eval (formula.standIn history x) ∧
      (e.evaluate x).2.HasHistory formula (history ++ [x]) := by
  have hstep := h.step_eq
  obtain rfl : e.formula = formula := h.formula_eq
  rcases evaluate_cases x e with ⟨hb, he⟩ | ⟨bucket, value, hb, hv, he⟩ | ⟨bucket, hb, hv, he⟩
  · rw [bucket?, hstep] at hb
    have hfirst : e.formula.first? history x = none := by rw [Formula.first?, hb, Option.bind_none]
    rw [he, Formula.standIn, hfirst]
    refine ⟨rfl, h.append rfl (fun other => ?_) (Nat.add_right_comm ..) (by rw [hfirst]; rfl)⟩
    have hne : bucketOf 1e-10 x ≠ some other := by
      rw [hb]
      nofun
    rw [Formula.find?_gives_append_of_ne history hne]
    exact h.find?_eq other
  · rw [bucket?, hstep] at hb
    obtain ⟨y, hy, hvalue⟩ := h.found hv
    have hfirst : e.formula.first? history x = some y := (Formula.first?_of_bucket hb).trans hy
    rw [he, Formula.standIn, hfirst]
    refine ⟨hvalue.symm, h.append rfl (fun other => ?_) rfl (by rw [hfirst]; rfl)⟩
    refine (h.find?_eq other).trans (congrArg (Option.bind · _) ?_)
    by_cases hother : bucket = other
    · subst hother
      rw [Formula.find?_gives_append_of_some hy, hy]
    · have hne : bucketOf 1e-10 x ≠ some other := by rwa [hb, Ne, Option.some.injEq]
      rw [Formula.find?_gives_append_of_ne history hne]
  · rw [bucket?, hstep] at hb
    have hfirst : e.formula.first? history x = none := (Formula.first?_of_bucket hb).trans (h.absent hv)
    rw [he, Formula.standIn, hfirst]
    refine ⟨rfl, h.append (step_learn ..) (h.find?_learn hb hv) ?_ ?_⟩
    · cases e.formula.eval x <;> exact Nat.add_right_comm ..
    · rw [hfirst]
      cases e.formula.eval x <;> rfl

end
end Expression

inductive Operation
  | evaluate (x : Float)
  | evaluateUncached (x : Float)
  | evaluateTree (x : Float)
  | clearCache

namespace Operation

def perform (e : Expression) : Operation → Option (Except DivisionByZero Float) × Expression
  | evaluate x =>
    let (outcome, e) := e.evaluate x
    (some outcome, e)
  | evaluateUncached x =>
    let (outcome, e) := e.evaluateUncached x
    (some outcome, e)
  | evaluateTree x => (some (e.formula.tree.eval x), e)
  | clearCache => (none, e.clearCache)

def record (history : List Float) : Operation → List Float
  | evaluate x => history ++ [x]
  | clearCache => []
  | evaluateUncached _ | evaluateTree _ => history

def answer (e : Expression) (history : List Float) :
    Operation → Option (Except DivisionByZero Float)
  | evaluate x => some (e.evaluateUncached (e.formula.standIn history x)).1
  | evaluateUncached x => some (e.evaluateUncached x).1
  | evaluateTree x => some (e.formula.tree.eval x)
  | clearCache => none

/-- An operation keeps to the history of its expression. -/
theorem perform_of_hasHistory {e slot : Expression} {history : List Float}
    (h : slot.HasHistory e.formula history) (operation : Operation) :
    (operation.perform slot).1 = operation.answer e history ∧
      (operation.perform slot).2.HasHistory e.formula (operation.record history) := by
  cases operation with
  | evaluate x =>
    obtain ⟨hanswer, hhistory⟩ := h.evaluate x
    exact ⟨congrArg some hanswer, hhistory⟩
  | evaluateUncached x => exact ⟨congrArg (fun f : Formula => some (f.eval x)) h.formula_eq, h⟩
  | evaluateTree x => exact ⟨congrArg (fun f : Formula => some (f.tree.eval x)) h.formula_eq, h⟩
  | clearCache => exact ⟨rfl, hasHistory_empty h.formula_eq rfl⟩

end Operation

inductive Action
  | operate (place : Nat) (operation : Operation)
  /-- The copy comes last. -/
  | clone (place : Nat)

namespace Action

/-- The value that an action gives, if it gives one, and the expressions afterwards. Nothing happens at a
place where there is no expression. -/
def perform (slots : List Expression) :
    Action → Option (Except DivisionByZero Float) × List Expression
  | operate i operation =>
    (slots[i]?.bind fun e => (operation.perform e).1, slots.modify i fun e => (operation.perform e).2)
  | clone i => (none, slots ++ slots[i]?.toList)

/-- The histories of several expressions. A copy has that of the expression it is a copy of. -/
def record (histories : List (List Float)) : Action → List (List Float)
  | operate i operation => histories.modify i fun history => operation.record history
  | clone i => histories ++ histories[i]?.toList

def answer (e : Expression) (histories : List (List Float)) :
    Action → Option (Except DivisionByZero Float)
  | operate i operation => histories[i]?.bind fun history => operation.answer e history
  | clone _ => none

def performAll : List Action → List Expression →
    List (Option (Except DivisionByZero Float)) × List Expression
  | [], slots => ([], slots)
  | action :: actions, slots =>
    let (answer, slots) := action.perform slots
    let (answers, slots) := performAll actions slots
    (answer :: answers, slots)

def answers (e : Expression) : List Action → List (List Float) →
    List (Option (Except DivisionByZero Float))
  | [], _ => []
  | action :: actions, histories =>
    action.answer e histories :: answers e actions (action.record histories)

end Action

section
variable {α β : Type} {R : α → β → Prop} {as : List α} {bs : List β}

private theorem forall₂_getElem? (h : List.Forall₂ R as bs) (i : Nat) :
    (as[i]? = none ∧ bs[i]? = none) ∨ ∃ a b, as[i]? = some a ∧ bs[i]? = some b ∧ R a b := by
  induction h generalizing i with
  | nil => exact .inl ⟨rfl, rfl⟩
  | cons hab _ ih =>
    cases i with
    | zero => exact .inr ⟨_, _, rfl, rfl, hab⟩
    | succ i => exact ih i

private theorem forall₂_modify {f : α → α} {g : β → β} (hfg : ∀ a b, R a b → R (f a) (g b))
    (h : List.Forall₂ R as bs) (i : Nat) : List.Forall₂ R (as.modify i f) (bs.modify i g) := by
  induction h generalizing i with
  | nil => cases i <;> exact .nil
  | cons hab h ih =>
    cases i with
    | zero => exact .cons (hfg _ _ hab) h
    | succ i => exact .cons hab (ih i)

end

namespace Action

def Kept (e : Expression) : List (List Float) → List Expression → Prop :=
  List.Forall₂ fun history slot => slot.HasHistory e.formula history

/-- An action keeps to the histories. -/
theorem perform_of_kept {e : Expression} {histories : List (List Float)} {slots : List Expression}
    (h : Kept e histories slots) (action : Action) :
    (action.perform slots).1 = action.answer e histories ∧
      Kept e (action.record histories) (action.perform slots).2 := by
  cases action with
  | operate i operation =>
    refine ⟨?_, forall₂_modify (fun history slot hs => (operation.perform_of_hasHistory hs).2) h i⟩
    rcases forall₂_getElem? h i with ⟨hnone, hnone'⟩ | ⟨history, slot, hsome, hsome', hs⟩
    · simp only [perform, answer, hnone, hnone', Option.bind_none]
    · simp only [perform, answer, hsome, hsome', Option.bind_some]
      exact (operation.perform_of_hasHistory hs).1
  | clone i =>
    refine ⟨rfl, List.rel_append h ?_⟩
    rcases forall₂_getElem? h i with ⟨hnone, hnone'⟩ | ⟨history, slot, hsome, hsome', hs⟩
    · rw [hnone, hnone']
      exact .nil
    · rw [hsome, hsome']
      exact .cons hs .nil

/-- Actions keep to the histories. -/
theorem performAll_of_kept {e : Expression} {histories : List (List Float)} {slots : List Expression}
    (h : Kept e histories slots) (actions : List Action) :
    (performAll actions slots).1 = answers e actions histories ∧
      Kept e (actions.foldl record histories) (performAll actions slots).2 := by
  induction actions generalizing histories slots with
  | nil => exact ⟨rfl, h⟩
  | cons action actions ih =>
    obtain ⟨hanswer, hkept⟩ := perform_of_kept h action
    obtain ⟨hanswers, hlast⟩ := ih hkept
    exact ⟨congrArg₂ List.cons hanswer hanswers, hlast⟩

end Action

/-- What is seen of an expression that was read as `e` and then evaluated at the arguments of a history. -/
structure Expression.Reflects (slot e : Expression) (history : List Float) : Prop where
  evaluate : ∀ x, (slot.evaluate x).1 = (e.evaluateUncached (e.formula.standIn history x)).1
  evaluateUncached : ∀ x, (slot.evaluateUncached x).1 = (e.evaluateUncached x).1
  tree : slot.formula.tree = e.formula.tree
  counted : slot.evaluations + slot.cacheHits = history.length
  cacheHits : slot.cacheHits = e.formula.answered history

/-- Whatever is done with an expression that was read from a text and with its copies, each answers and
counts by its own history. -/
theorem Action.performAll_of_text {source : String} {e : Expression} (h : Expression.ofText source = .ok e)
    (actions : List Action) :
    let r := performAll actions [e]
    r.1 = answers e actions [[]] ∧
      List.Forall₂ (fun history slot => slot.Reflects e history) (actions.foldl record [[]]) r.2 := by
  have hmemo : e.memo = emptyMemo := by
    obtain ⟨-, he⟩ := Expression.ofText_ok h
    rw [he]
    rfl
  have hstart : Kept e [[]] [e] := .cons (hasHistory_empty rfl hmemo) .nil
  obtain ⟨hanswers, hkept⟩ := performAll_of_kept hstart actions
  refine ⟨hanswers, hkept.imp fun history slot hs => ?_⟩
  exact {
    evaluate := fun x => (hs.evaluate x).1
    evaluateUncached := fun x => congrArg (Formula.eval · x) hs.formula_eq
    tree := congrArg Formula.tree hs.formula_eq
    counted := hs.counted
    cacheHits := hs.hits_eq }

/-- A quotient that fails at 0 and has a value nearby. The copy gives that value at 0; the original, whose
memo is emptied, fails there again. -/
theorem Action.performAll_of_text_reciprocal :
    let e : Expression := .ofFormula ⟨"2/x", .binary .div (.number 2.0) .variable, none⟩
    let actions : List Action := [.operate 0 (.evaluate 0.0), .operate 0 (.evaluate 1e-11), .clone 0,
      .operate 0 .clearCache, .operate 1 (.evaluate 0.0), .operate 0 (.evaluate 0.0)]
    let r := performAll actions [e]
    Expression.ofText "2/x" = .ok e ∧
    r.1 = answers e actions [[]] ∧
    r.1.map (fun answer => answer.bind Except.toOption) =
      [none, some 2e11, none, none, some 2e11, none] ∧
    List.Forall₂ (fun history slot => slot.Reflects e history) [[0.0], [0.0, 1e-11, 0.0]] r.2 := by
  intro e actions r
  have he : Expression.ofText "2/x" = .ok e := Expression.ofText_of_formula (by decide +kernel)
  obtain ⟨hanswers, hlast⟩ := performAll_of_text he actions
  refine ⟨he, hanswers, ?_, hlast⟩
  rw [hanswers]
  decide +kernel

end FormulaRoots
