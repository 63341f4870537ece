import FormulaRoots.Formula.ClosedForm
import FormulaRoots.Formula.Evaluation
import FormulaRoots.Formula.Parse
import FormulaRoots.Formula.Scan
import FormulaRoots.Log

/-! Formulas in one variable: read once from text, evaluated at many points. -/
namespace FormulaRoots
open Unicode

structure Formula where
  /-- The text without white space at its ends. -/
  text : String
  tree : Tree
  closedForm : Option ClosedForm
  deriving DecidableEq, Repr

namespace Formula

/-- Reads a formula. White space at the ends of the text is ignored, also where places in the text are
counted. -/
def ofText (source : String) : Except FormulaError Formula := do
  let text := trim source.toList
  let tokens ← Token.scan text
  let tree ← Tree.ofTokens tokens
  return ⟨String.ofList text, tree, ClosedForm.ofText? text⟩

def eval (f : Formula) (x : Float) : Except DivisionByZero Float :=
  match f.closedForm with
  | some form => .ok (form.apply x)
  | none => f.tree.eval x

def logEntry (f : Formula) : LogEntry :=
  let form :=
    match f.closedForm with
    | some form => s!"Some({form.label})"
    | none => "None"
  ⟨.debug, s!"parsed `{f.text}` as {f.tree.render} (shortcut: {form})"⟩

end Formula
end FormulaRoots
