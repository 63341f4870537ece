import FormulaRoots.Proofs.Formula.Text
import FormulaRoots.Proofs.Grammar.Acceptance
import FormulaRoots.Proofs.Scan.Readings

/-! Closed forms go unnoticed. A text with a closed form has only one tree that it can be read as, and
walking this tree performs the operations of the closed form. -/
namespace FormulaRoots
open Unicode

namespace ClosedForm

def tree (form : ClosedForm) : Tree :=
  let square : Tree := .binary .pow .variable (.number 2.0)
  let cube : Tree := .binary .pow .variable (.number 3.0)
  let product : Tree := .binary .mul .variable .variable
  let fiveX : Tree := .binary .mul (.number 5.0) .variable
  match form with
  | .sin => .call .sin .variable
  | .cos => .call .cos .variable
  | .tan => .call .tan .variable
  | .exp => .call .exp .variable
  | .ePowX => .binary .pow (.number Constant.e.value) .variable
  | .ln => .call .ln .variable
  | .sqrt => .call .sqrt .variable
  | .square => square
  | .selfProduct => product
  | .cube => cube
  | .squareMinusFour => .binary .sub square (.number 4.0)
  | .selfProductMinusFour => .binary .sub product (.number 4.0)
  | .cubeMinusXMinusTwo => .binary .sub (.binary .sub cube .variable) (.number 2.0)
  | .cosMinusX => .binary .sub (.call .cos .variable) .variable
  | .twoEPowSquareMinusFiveX =>
    .binary .sub
      (.binary .mul (.number 2.0) (.binary .pow (.number Constant.e.value) square)) fiveX
  | .twoExpSquareMinusFiveX =>
    .binary .sub (.binary .mul (.number 2.0) (.call .exp square)) fiveX

/-- Walking the tree performs the operations of the closed form, and none of them can fail. -/
theorem eval_tree (form : ClosedForm) (x : Float) : form.tree.eval x = .ok (form.apply x) := by
  cases form <;> rfl

/-- Whether each way to read a plain text gives the tree of the closed form or none. -/
def isOnlyReading (form : ClosedForm) (cs : List Char) : Bool :=
  (readings cs.length cs).all fun lexemes =>
    (Tree.ofTokens (lexemes.map (⟨·, 0⟩))).toOption.all (· == form.tree)

private theorem isOnlyReading_of_ofPlain? {s : String} {form : ClosedForm}
    (h : ofPlain? s = some form) :
    form.isOnlyReading s.toList = true := by
  unfold ofPlain? at h
  split at h <;> cases h <;> decide +kernel

/-- White space at the ends of a text does not enter its plain form. -/
theorem plain_trim (cs : List Char) : plain (trim cs) = plain cs := by
  have hdrop : ∀ ds : List Char, (ds.dropWhile isWhiteSpace).filter (fun c => !isWhiteSpace c) =
      ds.filter fun c => !isWhiteSpace c := by
    intro ds
    have hnone : (ds.takeWhile isWhiteSpace).filter (fun c => !isWhiteSpace c) = [] := by
      refine List.filter_eq_nil_iff.mpr fun c hc => ?_
      rw [List.mem_takeWhile_imp hc]
      decide
    conv =>
      rhs
      rw [← List.takeWhile_append_dropWhile (p := isWhiteSpace) (l := ds), List.filter_append, hnone]
    rfl
  unfold plain trim
  rw [List.filter_reverse, hdrop, List.filter_reverse, List.reverse_reverse, hdrop]

private theorem tree_of_ofText? {cs : List Char} {form : ClosedForm} {tokens : List Token} {t : Tree}
    (hform : ofText? cs = some form) (hscan : Token.scan cs = .ok tokens)
    (htree : Tree.ofTokens tokens = .ok t) : t = form.tree := by
  have hmem := lexemes_mem_readings (Nat.le_refl _) hscan
  have hplaced : Tree.ofTokens ((tokens.map Token.lexeme).map (⟨·, 0⟩)) = .ok t := by
    refine Tree.ofTokens_of_lexemes ?_ htree
    simp only [List.map_map, Function.comp_def]
  have honly := isOnlyReading_of_ofPlain? hform
  rw [String.toList_ofList] at honly
  have hread := List.all_eq_true.mp honly _ hmem
  rw [hplaced] at hread
  exact eq_of_beq hread

end ClosedForm

/-- The closed form of a formula is that of its text in lower case without white space. Where there is
one, the tree is the tree of this form, and at every point the value is what walking the tree gives. -/
theorem Expression.closedForm_unobservable {source : String} {e : Expression}
    (he : ofText source = .ok e) :
    e.formula.closedForm = ClosedForm.ofPlain? (String.ofList (ClosedForm.plain source.toList)) ∧
    ∀ form, e.formula.closedForm = some form →
      e.formula.tree = form.tree ∧
      ∀ x, (evaluateUncached x e).1 = .ok (form.apply x) ∧
        e.formula.tree.eval x = .ok (form.apply x) := by
  obtain ⟨tokens, hscan, htree, -, hclosed⟩ := Formula.ofText_ok (ofText_ok he).1
  refine ⟨?_, fun form hform => ?_⟩
  · rw [hclosed, ClosedForm.ofText?, ClosedForm.plain_trim]
  · have ht : e.formula.tree = form.tree :=
      ClosedForm.tree_of_ofText? (hclosed.symm.trans hform) hscan htree
    refine ⟨ht, fun x => ⟨?_, ?_⟩⟩
    · simp only [evaluateUncached, Formula.eval, hform]
    · rw [ht, form.eval_tree]

/-- Neither case nor white space hides a closed form. -/
theorem Expression.closedForm_unobservable_spaced :
    let text := " X ^ 2 - \t 4 "
    let e : Expression :=
      .ofFormula ⟨"X ^ 2 - \t 4", ClosedForm.squareMinusFour.tree, some .squareMinusFour⟩
    ofText text = .ok e ∧
    e.formula.closedForm = some .squareMinusFour ∧
    ∀ x, (evaluateUncached x e).1 = .ok (x.pow 2.0 - 4.0) ∧
      e.formula.tree.eval x = .ok (x.pow 2.0 - 4.0) := by
  intro text e
  have he : ofText text = .ok e := ofText_of_formula (by decide +kernel)
  exact ⟨he, rfl, ((closedForm_unobservable he).2 .squareMinusFour rfl).2⟩

end FormulaRoots
