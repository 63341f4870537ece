import FormulaRoots.Formula.Expression

/-! What is known of a formula that has been read from a text. -/
namespace FormulaRoots
open Unicode

/-- The text was scanned and its tokens were accepted. -/
theorem Formula.ofText_ok {source : String} {formula : Formula}
    (h : ofText source = .ok formula) :
    ∃ tokens, Token.scan (trim source.toList) = .ok tokens ∧
      Tree.ofTokens tokens = .ok formula.tree ∧
      formula.text = String.ofList (trim source.toList) ∧
      formula.closedForm = ClosedForm.ofText? (trim source.toList) := by
  unfold ofText at h
  cases hs : Token.scan (trim source.toList) with
  | error e =>
    simp only [hs, bind, Except.bind] at h
    cases h
  | ok tokens =>
    simp only [hs, bind, Except.bind] at h
    cases ht : Tree.ofTokens tokens with
    | error e =>
      simp only [ht] at h
      cases h
    | ok tree =>
      simp only [ht] at h
      cases h
      -- the fields have to be projected first, or the table of closed forms is unfolded
      dsimp only
      exact ⟨tokens, rfl, ht, rfl, rfl⟩

namespace Expression

/-- Reading an expression is reading its formula. -/
theorem ofText_ok {source : String} {e : Expression} (h : ofText source = .ok e) :
    Formula.ofText source = .ok e.formula ∧ e = ofFormula e.formula := by
  unfold ofText at h
  cases hf : Formula.ofText source with
  | error cause =>
    rw [hf] at h
    cases h
  | ok formula =>
    rw [hf] at h
    cases h
    exact ⟨rfl, rfl⟩

theorem ofText_of_formula {source : String} {formula : Formula}
    (h : (Formula.ofText source).toOption = some formula) :
    ofText source = .ok (ofFormula formula) := by
  unfold ofText
  cases hf : Formula.ofText source with
  | error cause =>
    rw [hf] at h
    cases h
  | ok formula' =>
    rw [hf] at h
    cases h
    rfl

/-- A text whose tokens are known is read by way of their tree. -/
theorem ofText_of_scan {text : List Char} {tokens : List Token}
    (h : Token.scan (trim text) = .ok tokens) :
    ofText (String.ofList text) = (Tree.ofTokens tokens).map fun tree =>
      ofFormula ⟨String.ofList (trim text), tree, ClosedForm.ofText? (trim text)⟩ := by
  simp only [ofText, Formula.ofText, String.toList_ofList, h, bind, Except.bind]
  cases Tree.ofTokens tokens <;> rfl

end Expression
end FormulaRoots
