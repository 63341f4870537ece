import FormulaRoots.Formula.Vocabulary
import FormulaRoots.Unicode.Lowercase
import FormulaRoots.Unicode.WhiteSpace

/-! Closed forms: common formulas that are recognised by their text and evaluated at once. Each one
performs the operations of its tree in the order of the tree, so that nobody can tell by the
value which way it was computed. -/
namespace FormulaRoots
open Unicode

inductive ClosedForm where
  | sin
  | cos
  | tan
  | exp
  | ePowX
  | ln
  | sqrt
  | square
  | selfProduct
  | cube
  | squareMinusFour
  | selfProductMinusFour
  | cubeMinusXMinusTwo
  | cosMinusX
  | twoEPowSquareMinusFiveX
  | twoExpSquareMinusFiveX
  deriving DecidableEq, Repr

namespace ClosedForm

def label : ClosedForm → String
  | sin => "Sin"
  | cos => "Cos"
  | tan => "Tan"
  | exp => "Exp"
  | ePowX => "EPowX"
  | ln => "Ln"
  | sqrt => "Sqrt"
  | square => "Square"
  | selfProduct => "SelfProduct"
  | cube => "Cube"
  | squareMinusFour => "SquareMinusFour"
  | selfProductMinusFour => "SelfProductMinusFour"
  | cubeMinusXMinusTwo => "CubeMinusXMinusTwo"
  | cosMinusX => "CosMinusX"
  | twoEPowSquareMinusFiveX => "TwoEPowSquareMinusFiveX"
  | twoExpSquareMinusFiveX => "TwoExpSquareMinusFiveX"

def ofPlain? : String → Option ClosedForm
  | "sin(x)" => some sin
  | "cos(x)" => some cos
  | "tan(x)" => some tan
  | "exp(x)" => some exp
  | "e^x" => some ePowX
  | "log(x)" => some ln
  | "ln(x)" => some ln
  | "sqrt(x)" => some sqrt
  | "x^2" => some square
  | "x*x" => some selfProduct
  | "x^3" => some cube
  | "x^2-4" => some squareMinusFour
  | "x*x-4" => some selfProductMinusFour
  | "x^3-x-2" => some cubeMinusXMinusTwo
  | "cos(x)-x" => some cosMinusX
  | "2*e^(x^2)-5*x" => some twoEPowSquareMinusFiveX
  | "2*exp(x^2)-5*x" => some twoExpSquareMinusFiveX
  | _ => none

/-- A text without white space and each character in lower case by itself. -/
def plain (cs : List Char) : List Char :=
  (cs.filter fun c => !isWhiteSpace c).flatMap lowerChar

def ofText? (cs : List Char) : Option ClosedForm :=
  ofPlain? (String.ofList (plain cs))

def apply (form : ClosedForm) (x : Float) : Float :=
  match form with
  | sin => x.sin
  | cos => x.cos
  | tan => x.tan
  | exp => x.exp
  | ePowX => Constant.e.value.pow x
  | ln => x.log
  | sqrt => x.sqrt
  | square => x.pow 2.0
  | selfProduct => x * x
  | cube => x.pow 3.0
  | squareMinusFour => x.pow 2.0 - 4.0
  | selfProductMinusFour => x * x - 4.0
  | cubeMinusXMinusTwo => x.pow 3.0 - x - 2.0
  | cosMinusX => x.cos - x
  | twoEPowSquareMinusFiveX => 2.0 * Constant.e.value.pow (x.pow 2.0) - 5.0 * x
  | twoExpSquareMinusFiveX => 2.0 * (x.pow 2.0).exp - 5.0 * x

end ClosedForm
end FormulaRoots
