import FormulaRoots.Decimal.Shortest
import FormulaRoots.Formula.Vocabulary

/-! Formula trees and their fully parenthesised text. Constants are numbers here, so a tree knows one
name only, the variable. -/
namespace FormulaRoots

inductive Tree where
  | number (v : Float)
  | variable
  | negate (inner : Tree)
  | binary (op : Operator) (lhs rhs : Tree)
  | call (f : Elementary) (arg : Tree)
  deriving DecidableEq, Repr

namespace Tree

/-- The text of a tree, such as `((x ^ 2) - 4)`. Every operation but a call brings its own
parentheses, so no rule of precedence is needed to read it. -/
def render : Tree → String
  | number v => Decimal.text v
  | .variable => "x"
  | negate inner => "(-" ++ inner.render ++ ")"
  | binary op lhs rhs => "(" ++ lhs.render ++ " " ++ op.symbol ++ " " ++ rhs.render ++ ")"
  | call f arg => f.name ++ "(" ++ arg.render ++ ")"

def isConstant : Tree → Bool
  | number _ => true
  | .variable => false
  | negate inner => inner.isConstant
  | binary _ lhs rhs => lhs.isConstant && rhs.isConstant
  | call _ arg => arg.isConstant

end Tree
end FormulaRoots
