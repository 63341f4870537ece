import FormulaRoots.Proofs.Formula.Text
import FormulaRoots.Proofs.Grammar.Acceptance
import FormulaRoots.Proofs.Scan.Spacing

/-! Divisions in a formula. Nothing but a division can fail, and a division is written with a slash, so a
formula without a slash in its text has a value everywhere. -/
namespace FormulaRoots
open Unicode

/-! ### Evaluation -/

/-- An operator fails if it divides by a zero. -/
theorem Operator.apply_eq_error_iff {op : Operator} {l r : Float} {e : DivisionByZero} :
    op.apply l r = .error e ↔ op = .div ∧ (r == 0.0) = true ∧ e = ⟨l⟩ := by
  cases op with
  | div =>
    rw [apply]
    by_cases hr : (r == 0.0) = true
    · rw [if_pos hr, Except.error.injEq, eq_comm]
      simp only [hr, true_and]
    · rw [if_neg hr]
      simp only [hr, reduceCtorEq, false_and, and_false]
  | _ => simp only [apply, reduceCtorEq, false_and]

namespace Tree

/-- The subtrees of a tree in the order in which they get their values, each behind its operands. -/
def nodes : Tree → List Tree
  | number v => [number v]
  | .variable => [.variable]
  | negate inner => inner.nodes ++ [negate inner]
  | binary op lhs rhs => lhs.nodes ++ rhs.nodes ++ [binary op lhs rhs]
  | call f arg => arg.nodes ++ [call f arg]

section
variable {x : Float} {op : Operator} {lhs rhs inner : Tree} {e : DivisionByZero}

private theorem eval_negate_eq_error_iff :
    (negate inner).eval x = .error e ↔ inner.eval x = .error e := by
  simp [eval, bind_eq_error_iff, pure, Except.pure]

private theorem eval_call_eq_error_iff {f : Elementary} :
    (call f inner).eval x = .error e ↔ inner.eval x = .error e := by
  simp [eval, bind_eq_error_iff, pure, Except.pure]

private theorem eval_binary_eq_error_iff : (binary op lhs rhs).eval x = .error e ↔
    lhs.eval x = .error e ∨ ∃ l, lhs.eval x = .ok l ∧
      (rhs.eval x = .error e ∨ ∃ r, rhs.eval x = .ok r ∧ op = .div ∧ (r == 0.0) = true ∧ e = ⟨l⟩) := by
  simp only [eval, bind_eq_error_iff, Operator.apply_eq_error_iff]

end

/-- Where a tree has no value, it holds a quotient of a value by a zero. -/
theorem exists_quotient_of_eval_error {t : Tree} {x : Float} {e : DivisionByZero}
    (h : t.eval x = .error e) :
    ∃ lhs rhs divisor, .binary .div lhs rhs ∈ t.nodes ∧ lhs.eval x = .ok e.numerator ∧
      rhs.eval x = .ok divisor ∧ (divisor == 0.0) = true := by
  induction t with
  | number v => cases h
  | «variable» => cases h
  | negate inner ih =>
    obtain ⟨lhs, rhs, divisor, hmem, hvalues⟩ := ih (eval_negate_eq_error_iff.mp h)
    exact ⟨lhs, rhs, divisor, List.mem_append_left _ hmem, hvalues⟩
  | call f arg ih =>
    obtain ⟨lhs, rhs, divisor, hmem, hvalues⟩ := ih (eval_call_eq_error_iff.mp h)
    exact ⟨lhs, rhs, divisor, List.mem_append_left _ hmem, hvalues⟩
  | binary op left right ihl ihr =>
    rcases eval_binary_eq_error_iff.mp h with hleft | ⟨l, hl, hright | ⟨r, hr, rfl, hzero, rfl⟩⟩
    · obtain ⟨lhs, rhs, divisor, hmem, hvalues⟩ := ihl hleft
      exact ⟨lhs, rhs, divisor, by simp [nodes, hmem], hvalues⟩
    · obtain ⟨lhs, rhs, divisor, hmem, hvalues⟩ := ihr hright
      exact ⟨lhs, rhs, divisor, by simp [nodes, hmem], hvalues⟩
    · exact ⟨left, right, r, by simp [nodes], hl, hr, hzero⟩

end Tree

/-! ### Where quotients come from -/

namespace Grammar

private theorem Category.links_slash {c d : Category} {p : Precedence} {x : Lexeme}
    (hc : c.links = some (p, d)) (ho : p x = some .div) : x = .slash := by
  obtain ⟨-, rfl, -⟩ | ⟨-, rfl, -⟩ | ⟨-, rfl, -⟩ := links_cases hc <;>
    cases x <;> simp_all [additive, multiplicative, exponential]

/-- A quotient in the tree of a phrase is written with a slash. -/
theorem Derives.slash_mem {c : Category} {ts : List Token} {t : Tree} {n : Nat} (h : Derives c ts t n)
    {lhs rhs : Tree} (hquotient : .binary .div lhs rhs ∈ t.nodes) : .slash ∈ ts.map Token.lexeme := by
  induction h with
  | operand hc h ih => exact ih hquotient
  | unsigned h ih => exact ih hquotient
  | plus pos h ih => exact List.mem_cons_of_mem _ (ih hquotient)
  | join hc hl ho hr ihl ihr =>
    simp only [Tree.nodes, List.mem_append, List.mem_singleton] at hquotient
    simp only [List.map_append, List.map_cons, List.mem_append, List.mem_cons]
    rcases hquotient with (hleft | hright) | hself
    · exact .inl (ihl hleft)
    · exact .inr (.inr (ihr hright))
    · cases hself
      exact .inr (.inl (Category.links_slash hc ho).symm)
  | negate pos h ih =>
    have hinner := ih (by simpa [Tree.nodes] using hquotient)
    exact List.mem_cons_of_mem _ hinner
  | literal v pos => simp [Tree.nodes] at hquotient
  | unknown pos => simp [Tree.nodes] at hquotient
  | e pos => simp [Tree.nodes] at hquotient
  | pi pos => simp [Tree.nodes] at hquotient
  | call f pos opened closed h ih =>
    have hinner := ih (by simpa [Tree.nodes] using hquotient)
    simp [hinner]
  | group opened closed h ih =>
    have hinner := ih hquotient
    simp [hinner]

end Grammar

private theorem Lexeme.Spells.eq_slash {word rest : List Char} (h : Spells word rest .slash) :
    word = ['/'] := by
  generalize hs : Lexeme.slash = lexeme at h
  cases h with
  | sign h =>
    subst hs
    simpa [signs] using h
  | literal => cases hs
  | name hw h =>
    subst hs
    simp [names] at h

private theorem Token.slash_mem_of_scan {text : List Char} {tokens : List Token}
    (h : scan text = .ok tokens) (hslash : .slash ∈ tokens.map lexeme) : '/' ∈ text := by
  obtain ⟨extents, htiles, rfl⟩ := tiles_of_scanFrom h
  rw [List.map_map] at hslash
  obtain ⟨e, he, hlexeme⟩ := List.mem_map.mp hslash
  have hspelled := (htiles.isSegmentation [] rfl).spelled e he
  rw [show e.lexeme = .slash from hlexeme] at hspelled
  have hmem : '/' ∈ ([] ++ text).extract e.start e.stop := by
    rw [hspelled.eq_slash]
    exact List.mem_singleton_self _
  obtain ⟨i, -, -, hi⟩ := exists_getElem?_of_mem_extract hmem
  exact List.mem_of_getElem? hi

private theorem mem_of_mem_trim {c : Char} {cs : List Char} (h : c ∈ trim cs) : c ∈ cs := by
  obtain ⟨gap, -, heq⟩ := exists_append_trim cs
  rw [heq]
  exact List.mem_append_right _ (List.mem_append_left _ h)

/-- A formula whose text has no slash has a value at every point. -/
theorem Formula.eval_ok_of_no_slash {source : String} {formula : Formula}
    (h : ofText source = .ok formula) (hslash : '/' ∉ source.toList) (x : Float) :
    ∃ v, formula.eval x = .ok v := by
  obtain ⟨tokens, hscan, htree, -, -⟩ := ofText_ok h
  obtain ⟨n, hderives, -, -⟩ := Tree.derives_of_ofTokens htree
  unfold eval
  cases formula.closedForm with
  | some form => exact ⟨form.apply x, rfl⟩
  | none =>
    cases hv : formula.tree.eval x with
    | ok v => exact ⟨v, rfl⟩
    | error e =>
      obtain ⟨lhs, rhs, divisor, hquotient, -⟩ := Tree.exists_quotient_of_eval_error hv
      have hmem := Token.slash_mem_of_scan hscan (hderives.slash_mem hquotient)
      exact absurd (mem_of_mem_trim hmem) hslash

end FormulaRoots
