import FormulaRoots.Solver.Solve
import FormulaRoots.Proofs.Grammar.Derivation
import FormulaRoots.Proofs.Grammar.Reading
import FormulaRoots.Proofs.Grammar.Completeness
import FormulaRoots.Proofs.Grammar.Soundness
import FormulaRoots.Proofs.Grammar.Acceptance
import FormulaRoots.Proofs.Grammar.Parentheses
import FormulaRoots.Proofs.Grammar.Faults
import FormulaRoots.Proofs.Grammar.Refusals
import FormulaRoots.Proofs.Sampling.Inquiry
import FormulaRoots.Proofs.Solver.Inquiries
import FormulaRoots.Proofs.Memo.Holding
import FormulaRoots.Proofs.Solver.Uncached
import FormulaRoots.Proofs.Formula.Memo
import FormulaRoots.Proofs.Scan.Literal
import FormulaRoots.Proofs.Scan.Lexeme
import FormulaRoots.Proofs.Scan.Readings
import FormulaRoots.Proofs.Scan.Spelling
import FormulaRoots.Proofs.Formula.ClosedForm
import FormulaRoots.Proofs.Binary64.Nearest
import FormulaRoots.Proofs.Binary64.Unpacked
import FormulaRoots.Proofs.Binary64.Operations
import FormulaRoots.Proofs.Binary64.Packing
import FormulaRoots.Proofs.Binary64.Steps
import FormulaRoots.Proofs.Binary64.Order
import FormulaRoots.Proofs.Binary64.Negation
import FormulaRoots.Proofs.Solver.Signs
import FormulaRoots.Proofs.Solver.Brackets
import FormulaRoots.Proofs.Solver.Course
import FormulaRoots.Proofs.Solver.Trace
import FormulaRoots.Proofs.Solver.SignChange
import FormulaRoots.Proofs.Binary64.Logarithm
import FormulaRoots.Proofs.Solver.Cap
import FormulaRoots.Proofs.Solver.Substitution
import FormulaRoots.Proofs.Solver.Selection
import FormulaRoots.Proofs.Solver.Calls
import FormulaRoots.Proofs.Solver.Failures
import FormulaRoots.Proofs.Solver.Counters
import FormulaRoots.Proofs.Solver.Hints
import FormulaRoots.Proofs.Solver.Negation
import FormulaRoots.Proofs.Solver.Margin
import FormulaRoots.Proofs.Solver.Immediate
import FormulaRoots.Proofs.Solver.Settings
import FormulaRoots.Proofs.Memo.Accounts
import FormulaRoots.Proofs.Memo.Order
import FormulaRoots.Proofs.Memo.Ledger
import FormulaRoots.Proofs.Formula.Copies
import FormulaRoots.Proofs.Formula.Failures
import FormulaRoots.Proofs.Scan.LetterCase
import FormulaRoots.Proofs.Scan.Segmentation
import FormulaRoots.Proofs.Scan.Spacing
import FormulaRoots.Proofs.Scan.Refusal
import FormulaRoots.Proofs.Grammar.Places
import FormulaRoots.Proofs.Formula.Layout
import FormulaRoots.Proofs.Binary64.Scientific
import FormulaRoots.Proofs.Binary64.Magnitude
import FormulaRoots.Proofs.Binary64.Ratio
import FormulaRoots.Proofs.Decimal.Rounded
import FormulaRoots.Proofs.Decimal.Shortest
import FormulaRoots.Proofs.Decimal.Positional
import FormulaRoots.Proofs.Decimal.Text
import FormulaRoots.Proofs.Formula.Rendering
import FormulaRoots.Proofs.Solver.Cycle
import FormulaRoots.Proofs.Solver.StepLimit
import FormulaRoots.Proofs.Solver.Recomputation
import FormulaRoots.Proofs.Formula.Division
import FormulaRoots.Proofs.Formula.Quotients
import FormulaRoots.Proofs.Formula.Constants
import FormulaRoots.Proofs.Solver.Totality
import FormulaRoots.Proofs.Grammar.Retracing
