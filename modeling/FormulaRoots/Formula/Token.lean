import FormulaRoots.Decimal.Shortest
import FormulaRoots.Formula.Vocabulary

/-! Lexemes, the smallest parts of a formula that mean something, and tokens, lexemes with the place
where they stand. -/
namespace FormulaRoots

/-- A smallest part of a formula. Names are resolved: they are the variable, a constant or a
function. -/
inductive Lexeme where
  | number (v : Float)
  | variable
  | constant (c : Constant)
  | function (f : Elementary)
  | plus
  | minus
  | star
  | slash
  | caret
  | openParen
  | closeParen
  deriving DecidableEq, Repr

namespace Lexeme

def text : Lexeme → String
  | number v => Decimal.text v
  | .variable => "x"
  | constant c => c.name
  | function f => f.name
  | plus => "+"
  | minus => "-"
  | star => "*"
  | slash => "/"
  | caret => "^"
  | openParen => "("
  | closeParen => ")"

def ofSign? : Char → Option Lexeme
  | '+' => some plus
  | '-' => some minus
  | '*' => some star
  | '/' => some slash
  | '^' => some caret
  | '(' => some openParen
  | ')' => some closeParen
  | _ => none

def ofName? (name : String) : Option Lexeme :=
  if name = "x" then some .variable
  else
    match Constant.ofName? name with
    | some c => some (constant c)
    | none => (Elementary.ofName? name).map function

end Lexeme

/-- A lexeme and the number of characters before it. -/
structure Token where
  lexeme : Lexeme
  pos : Nat
  deriving DecidableEq, Repr

end FormulaRoots
