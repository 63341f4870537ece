import FormulaRoots.Formula.Tree

/-! The value of a tree at a point. The only failure is a division by zero. -/
namespace FormulaRoots

structure DivisionByZero where
  numerator : Float
  deriving DecidableEq, Repr

def DivisionByZero.message (e : DivisionByZero) : String :=
  "division by zero: " ++ Decimal.text e.numerator ++ " / 0"

def Operator.apply : Operator → Float → Float → Except DivisionByZero Float
  | add, l, r => .ok (l + r)
  | sub, l, r => .ok (l - r)
  | mul, l, r => .ok (l * r)
  | div, l, r => if r == 0.0 then .error ⟨l⟩ else .ok (l / r)
  | pow, l, r => .ok (l.pow r)

/-- The value of a tree where the variable is `x`. Operands are evaluated from left to right, so the
failure reported is the first one in reading order. -/
def Tree.eval (x : Float) : Tree → Except DivisionByZero Float
  | number v => .ok v
  | .variable => .ok x
  | negate inner => do
    let v ← inner.eval x
    return -v
  | binary op lhs rhs => do
    let l ← lhs.eval x
    let r ← rhs.eval x
    op.apply l r
  | call f arg => do
    let v ← arg.eval x
    return f.apply v

end FormulaRoots
