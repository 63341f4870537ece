/-! The names and signs that a formula is made of: constants, elementary functions and binary
operators. -/
namespace FormulaRoots

inductive Constant where
  | e
  | pi
  deriving DecidableEq, Repr

namespace Constant

def name : Constant → String
  | e => "e"
  | pi => "pi"

def ofName? : String → Option Constant
  | "e" => some e
  | "pi" => some pi
  | _ => none

def value : Constant → Float
  | e => 2.718281828459045
  | pi => 3.141592653589793

end Constant

inductive Elementary where
  | sin
  | cos
  | tan
  | sqrt
  | ln
  | exp
  deriving DecidableEq, Repr

namespace Elementary

def name : Elementary → String
  | sin => "sin"
  | cos => "cos"
  | tan => "tan"
  | sqrt => "sqrt"
  | ln => "ln"
  | exp => "exp"

def ofName? : String → Option Elementary
  | "sin" => some sin
  | "cos" => some cos
  | "tan" => some tan
  | "sqrt" => some sqrt
  | "log" => some ln
  | "ln" => some ln
  | "exp" => some exp
  | _ => none

/-- The value of a function. Outside its domain it is NaN. -/
def apply : Elementary → Float → Float
  | sin, v => v.sin
  | cos, v => v.cos
  | tan, v => v.tan
  | sqrt, v => v.sqrt
  | ln, v => v.log
  | exp, v => v.exp

end Elementary

inductive Operator where
  | add
  | sub
  | mul
  | div
  | pow
  deriving DecidableEq, Repr

def Operator.symbol : Operator → String
  | add => "+"
  | sub => "-"
  | mul => "*"
  | div => "/"
  | pow => "^"

end FormulaRoots
