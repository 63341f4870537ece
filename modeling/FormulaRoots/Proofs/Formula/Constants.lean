import Mathlib.Data.List.Basic
import FormulaRoots.Formula.Evaluation
import FormulaRoots.Proofs.Grammar.Acceptance

/-! Constant trees. A tree is constant if the variable was not written, and then its value or its failure is
the same at all points. -/
namespace FormulaRoots

namespace Grammar

/-- The reader neither drops the variable nor brings it in. -/
theorem Derives.isConstant_iff {c : Category} {ts : List Token} {t : Tree} {n : Nat}
    (h : Derives c ts t n) : t.isConstant = true ↔ .variable ∉ ts.map Token.lexeme := by
  induction h with
  | operand hc h ih => exact ih
  | unsigned h ih => exact ih
  | @join c d p ls rs o op l r m n hc hl ho hr ihl ihr =>
    have hoperator : o.lexeme ≠ .variable := by
      rcases Category.links_lexeme hc ho with h | h | h | h | h <;> simp [h]
    rw [Tree.isConstant, Bool.and_eq_true, ihl, ihr]
    simp only [List.map_append, List.map_cons, List.mem_append, List.mem_cons, not_or, hoperator.symm,
      not_false_eq_true, true_and]
  | negate pos h ih =>
    rw [Tree.isConstant, ih]
    simp
  | plus pos h ih =>
    rw [ih]
    simp
  | literal v pos => simp [Tree.isConstant]
  | unknown pos => simp [Tree.isConstant]
  | e pos => simp [Tree.isConstant]
  | pi pos => simp [Tree.isConstant]
  | call f pos opened closed h ih =>
    rw [Tree.isConstant, ih]
    simp
  | group opened closed h ih =>
    rw [ih]
    simp

end Grammar

namespace Tree

/-- Where the variable does not occur, its value is not looked at, not even by a failure. -/
theorem eval_eq_of_isConstant {t : Tree} (h : t.isConstant = true) (x y : Float) : t.eval x = t.eval y := by
  induction t with
  | number v => rfl
  | «variable» => cases h
  | negate inner ih => rw [eval, eval, ih h]
  | binary op lhs rhs ihl ihr =>
    rw [isConstant, Bool.and_eq_true] at h
    rw [eval, eval, ihl h.1, ihr h.2]
  | call f arg ih => rw [eval, eval, ih h]

/-- A token list that is accepted has a constant tree if and only if the variable is not among its tokens, and
a constant tree has the same value or the same failure everywhere. -/
theorem isConstant_means_independence :
    (∀ ts t, ofTokens ts = .ok t → (t.isConstant = true ↔ .variable ∉ ts.map Token.lexeme)) ∧
    ∀ t : Tree, t.isConstant = true → ∀ x y, t.eval x = t.eval y := by
  constructor
  · intro ts t h
    obtain ⟨n, hderives, -, -⟩ := derives_of_ofTokens h
    exact hderives.isConstant_iff
  · intro t h x y
    exact eval_eq_of_isConstant h x y

/-- The quotient `1 / (pi - pi)` fails everywhere in the same way. -/
theorem isConstant_means_independence_failing :
    let ts : List Token := [⟨.number 1.0, 0⟩, ⟨.slash, 2⟩, ⟨.openParen, 4⟩, ⟨.constant .pi, 5⟩, ⟨.minus, 8⟩,
      ⟨.constant .pi, 10⟩, ⟨.closeParen, 12⟩]
    let pi : Tree := .number Constant.pi.value
    let t : Tree := .binary .div (.number 1.0) (.binary .sub pi pi)
    ofTokens ts = .ok t ∧ t.isConstant = true ∧
      t.eval 0.0 = .error ⟨1.0⟩ ∧ ∀ y, t.eval y = .error ⟨1.0⟩ := by
  intro ts pi t
  obtain ⟨hread, hindependent⟩ := isConstant_means_independence
  have hts : ofTokens ts = .ok t := by decide +kernel
  have hconstant : t.isConstant = true := (hread ts t hts).mpr (by decide +kernel)
  have hzero : t.eval 0.0 = .error ⟨1.0⟩ := by decide +kernel
  exact ⟨hts, hconstant, hzero, fun y => (hindependent t hconstant y 0.0).trans hzero⟩

end Tree
end FormulaRoots
