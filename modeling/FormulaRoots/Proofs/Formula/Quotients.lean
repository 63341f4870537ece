import FormulaRoots.Proofs.Formula.Division

/-! Which division by zero is reported. Evaluation fails if some quotient in the tree has operands with values
and a zero as its divisor, and the first such quotient in the order of evaluation names the numerator. -/
namespace FormulaRoots.Tree

/-- The tree is a quotient whose operands have values at `x`: its dividend `l`, and its divisor a zero of
either sign. -/
def IsOverZero (x : Float) (t : Tree) (l : Float) : Prop :=
  ∃ lhs rhs r, t = .binary .div lhs rhs ∧ lhs.eval x = .ok l ∧ rhs.eval x = .ok r ∧ (r == 0.0) = true

def overZero? (x : Float) : Tree → Option Float
  | binary .div lhs rhs =>
    match lhs.eval x, rhs.eval x with
    | .ok l, .ok r => if r == 0.0 then some l else none
    | _, _ => none
  | _ => none

def numerator? : Except DivisionByZero Float → Option Float
  | .ok _ => none
  | .error e => some e.numerator

section
variable {x l : Float} {t : Tree}

private theorem overZero?_eq_some_iff : overZero? x t = some l ↔ IsOverZero x t l := by
  constructor
  · intro h
    unfold overZero? at h
    split at h
    · rename_i lhs rhs
      split at h
      · rename_i l' r hl hr
        split at h
        · rename_i hzero
          cases h
          exact ⟨lhs, rhs, r, rfl, hl, hr, hzero⟩
        · cases h
      · cases h
    · cases h
  · rintro ⟨lhs, rhs, r, rfl, hl, hr, hzero⟩
    simp only [overZero?, hl, hr, hzero, if_true]

private theorem overZero?_eq_none_iff : overZero? x t = none ↔ ∀ l, ¬ IsOverZero x t l := by
  simp only [← overZero?_eq_some_iff, Option.eq_none_iff_forall_ne_some, ne_eq]

private theorem numerator?_eq_some_iff {outcome : Except DivisionByZero Float} {e : DivisionByZero} :
    numerator? outcome = some e.numerator ↔ outcome = .error e := by
  obtain ⟨numerator⟩ := e
  cases outcome with
  | ok v => simp [numerator?]
  | error cause =>
    obtain ⟨numerator'⟩ := cause
    simp [numerator?]

private theorem numerator?_eval_binary (x : Float) (op : Operator) (lhs rhs : Tree) :
    numerator? ((binary op lhs rhs).eval x) =
      ((numerator? (lhs.eval x)).or (numerator? (rhs.eval x))).or (overZero? x (binary op lhs rhs)) := by
  cases hl : lhs.eval x with
  | error e => simp [eval, hl, bind, Except.bind, numerator?]
  | ok l =>
    cases hr : rhs.eval x with
    | error e => simp [eval, hl, hr, bind, Except.bind, numerator?]
    | ok r =>
      cases op with
      | div =>
        by_cases hzero : (r == 0.0) = true
        · simp [eval, hl, hr, bind, Except.bind, Operator.apply, overZero?, numerator?, hzero]
        · simp [eval, hl, hr, bind, Except.bind, Operator.apply, overZero?, numerator?, hzero]
      | _ => simp [eval, hl, hr, bind, Except.bind, Operator.apply, overZero?, numerator?]

private theorem findSome?_nodes (x : Float) (t : Tree) :
    t.nodes.findSome? (overZero? x) = numerator? (t.eval x) := by
  induction t with
  | number v => rfl
  | «variable» => rfl
  | negate inner ih =>
    rw [nodes, List.findSome?_append, ih]
    cases h : inner.eval x <;> simp [eval, h, bind, Except.bind, pure, Except.pure, numerator?, overZero?]
  | binary op lhs rhs ihl ihr =>
    rw [nodes, List.findSome?_append, List.findSome?_append, ihl, ihr, numerator?_eval_binary]
    simp
  | call f arg ih =>
    rw [nodes, List.findSome?_append, ih]
    cases h : arg.eval x <;> simp [eval, h, bind, Except.bind, pure, Except.pure, numerator?, overZero?]

end

/-- A tree has no value at a point if and only if it contains a quotient over zero, at any depth. The failure
has the dividend of the first of them as its numerator, in the order from left to right in which operands
come before their operation. -/
theorem eval_fails_iff (t : Tree) (x : Float) :
    ((∃ e, t.eval x = .error e) ↔ ∃ node ∈ t.nodes, ∃ l, IsOverZero x node l) ∧
    ∀ e, t.eval x = .error e ↔ ∃ before node after, t.nodes = before ++ node :: after ∧
      IsOverZero x node e.numerator ∧ ∀ earlier ∈ before, ∀ l, ¬ IsOverZero x earlier l := by
  refine ⟨⟨?_, ?_⟩, fun e => ?_⟩
  · rintro ⟨e, h⟩
    obtain ⟨lhs, rhs, divisor, hnode, hl, hr, hzero⟩ := exists_quotient_of_eval_error h
    exact ⟨_, hnode, e.numerator, lhs, rhs, divisor, rfl, hl, hr, hzero⟩
  · rintro ⟨node, hnode, l, hover⟩
    cases h : t.eval x with
    | error e => exact ⟨e, rfl⟩
    | ok v =>
      have hnone : t.nodes.findSome? (overZero? x) = none := by rw [findSome?_nodes, h, numerator?]
      exact absurd hover (overZero?_eq_none_iff.mp (List.findSome?_eq_none_iff.mp hnone node hnode) l)
  · rw [← numerator?_eq_some_iff, ← findSome?_nodes, List.findSome?_eq_some_iff]
    simp only [overZero?_eq_some_iff, overZero?_eq_none_iff]

end FormulaRoots.Tree
