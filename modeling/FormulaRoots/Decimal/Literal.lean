import FormulaRoots.Decimal.Basic

/-! Number literals: where one ends in a text, which are well formed, and the double they denote. -/
namespace FormulaRoots

structure Literal where
  /-- A run of digits and dots. -/
  mantissa : List Char
  /-- Nothing, or a marker, an optional sign and digits. -/
  exponent : List Char
  deriving DecidableEq, Repr

namespace Literal

def isMantissaChar (c : Char) : Bool :=
  c.isDigit || c == '.'

def isMarker (c : Char) : Bool :=
  c == 'e' || c == 'E'

def isSign (c : Char) : Bool :=
  c == '+' || c == '-'

def signedDigits : List Char → List Char
  | [] => []
  | c :: cs => if isSign c then c :: cs.takeWhile Char.isDigit else (c :: cs).takeWhile Char.isDigit

/-- The exponent at the head of a text. A marker belongs to one only if a digit follows, after a sign
or at once; otherwise it begins a name. -/
def exponentAt : List Char → List Char
  | [] => []
  | c :: cs =>
    if isMarker c && (signedDigits cs).any Char.isDigit then c :: signedDigits cs else []

def scan (cs : List Char) : Literal :=
  ⟨cs.takeWhile isMantissaChar, exponentAt (cs.dropWhile isMantissaChar)⟩

def chars (l : Literal) : List Char :=
  l.mantissa ++ l.exponent

def isWellFormed (l : Literal) : Bool :=
  l.mantissa.any Char.isDigit && decide (l.mantissa.count '.' ≤ 1)

def naturalOf (ds : List Char) : Nat :=
  ds.foldl (fun n c => 10 * n + (c.toNat - '0'.toNat)) 0

def exponentValue (cs : List Char) : Int :=
  let n : Int := naturalOf (cs.filter Char.isDigit)
  if cs.contains '-' then -n else n

def toDecimal (l : Literal) : Decimal :=
  let fraction := (l.mantissa.dropWhile (· != '.')).drop 1
  ⟨naturalOf (l.mantissa.filter Char.isDigit), exponentValue l.exponent - fraction.length⟩

def value? (l : Literal) : Option Float :=
  if l.isWellFormed then some l.toDecimal.toFloat else none

end Literal
end FormulaRoots
