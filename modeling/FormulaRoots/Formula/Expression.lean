import FormulaRoots.Formula.Basic
import FormulaRoots.Memo.Table

/-! Formulas that remember their values. -/
namespace FormulaRoots

/-- A formula with the values computed so far. The first value computed in a bucket is the value of
the whole bucket from then on. -/
structure Expression where
  formula : Formula
  memo : MemoTable

namespace Expression

def memoStep : Float := 1e-10

def emptyMemo : MemoTable :=
  MemoTable.ofStep memoStep (by decide +kernel)

def ofFormula (f : Formula) : Expression :=
  ⟨f, emptyMemo⟩

def ofText (source : String) : Except FormulaError Expression := do
  return ofFormula (← Formula.ofText source)

/-- The value at `x`, from the memo if its bucket has one. A new value is computed at `x` itself and
not at the rounded argument. -/
def evaluate : Sampler Expression := fun x e =>
  let (outcome, memo, _) := e.memo.getOrCompute (Sampler.pure fun _ => e.formula.eval x) x ()
  (outcome, { e with memo })

def evaluateUncached : Sampler Expression := fun x e =>
  (e.formula.eval x, e)

def clearCache (e : Expression) : Expression :=
  { e with memo := emptyMemo }

def evaluations (e : Expression) : Nat :=
  e.memo.misses

def cacheHits (e : Expression) : Nat :=
  e.memo.hits

end Expression
end FormulaRoots
