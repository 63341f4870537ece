import FormulaRoots.Formula.Token

/-! Why a text is no formula. -/
namespace FormulaRoots

/-- How deep a formula may nest. The limit holds for the parentheses, calls and signs open at one
point, and again for the depth of the tree. -/
def nestingLimit : Nat := 256

inductive FormulaError where
  | emptyExpression
  | unmatchedOpenParen (pos : Nat)
  | unmatchedCloseParen (pos : Nat)
  /-- An unknown name stands in front of a `(`. -/
  | unknownFunction (name : String) (pos : Nat)
  /-- An unknown name stands elsewhere. -/
  | unknownIdentifier (name : String) (pos : Nat)
  /-- A function has no argument in parentheses. -/
  | missingCallParen (f : Elementary) (pos : Nat)
  /-- A number has two dots or no digit. -/
  | invalidNumber (literal : String) (pos : Nat)
  /-- No lexeme begins with this character. -/
  | unexpectedChar (ch : Char) (pos : Nat)
  | unexpectedToken (token : Token)
  /-- An operand is missing at the end. -/
  | unexpectedEnd
  | nestingTooDeep (pos : Nat)
  deriving DecidableEq, Repr

def FormulaError.message : FormulaError → String
  | emptyExpression => "empty expression"
  | unmatchedOpenParen pos => s!"missing closing parenthesis for '(' at position {pos}"
  | unmatchedCloseParen pos => s!"unexpected ')' at position {pos}"
  | unknownFunction name pos => s!"unknown function `{name}` at position {pos}"
  | unknownIdentifier name pos =>
    s!"unknown identifier `{name}` at position {pos}; only `x`, `e` and `pi` are allowed"
  | missingCallParen f pos =>
    s!"function `{f.name}` at position {pos} must be followed by a parenthesized argument"
  | invalidNumber literal pos => s!"invalid number literal `{literal}` at position {pos}"
  | unexpectedChar ch pos => s!"unexpected character '{ch}' at position {pos}"
  | unexpectedToken token =>
    s!"unexpected token `{token.lexeme.text}` at position {token.pos}"
  | unexpectedEnd => "unexpected end of expression"
  | nestingTooDeep pos => s!"formula nests deeper than {nestingLimit} levels at position {pos}"

end FormulaRoots
