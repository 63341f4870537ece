import FormulaRoots.Formula.Error
import FormulaRoots.Formula.Tree

/-! From tokens to trees, by the grammar

  sum     := product (`+` or `-` product)*
  product := power (`*` or `/` power)*
  power   := operand (`^` operand)*
  operand := `-` operand, `+` operand, a number, the variable, a constant,
             a function `(` sum `)`, or `(` sum `)`

where every chain associates to the left. A sign binds tighter than `^`. -/
namespace FormulaRoots.Grammar

structure Measured where
  tree : Tree
  depth : Nat

namespace Measured

def leaf (t : Tree) : Measured := ⟨t, 1⟩

def negate (m : Measured) : Measured := ⟨.negate m.tree, m.depth + 1⟩

def call (f : Elementary) (m : Measured) : Measured := ⟨.call f m.tree, m.depth + 1⟩

def join (op : Operator) (l r : Measured) : Measured :=
  ⟨.binary op l.tree r.tree, 1 + max l.depth r.depth⟩

/-- The tree if its depth is within the limit. The token at `pos` made it as deep as it is. -/
def within (m : Measured) (pos : Nat) : Except FormulaError Measured :=
  if m.depth ≤ nestingLimit then .ok m else .error (.nestingTooDeep pos)

end Measured

/-- What is read from the front of `ts`: a tree and the tokens after it, of which there are fewer. -/
abbrev Reading (ts : List Token) :=
  Except FormulaError (Measured × { rest : List Token // rest.length < ts.length })

abbrev Reader := (ts : List Token) → Reading ts

abbrev Precedence := Lexeme → Option Operator

def additive : Precedence
  | .plus => some .add
  | .minus => some .sub
  | _ => none

def multiplicative : Precedence
  | .star => some .mul
  | .slash => some .div
  | _ => none

def exponential : Precedence
  | .caret => some .pow
  | _ => none

def chainFrom (precedence : Precedence) (operand : Reader) (lhs : Measured) (ts : List Token) :
    Except FormulaError (Measured × { rest : List Token // rest.length ≤ ts.length }) :=
  match ts with
  | [] => .ok (lhs, ⟨[], Nat.le_refl _⟩)
  | t :: after =>
    match precedence t.lexeme with
    | none => .ok (lhs, ⟨t :: after, Nat.le_refl _⟩)
    | some op => do
      let (rhs, ⟨rest, h⟩) ← operand after
      let joined ← (Measured.join op lhs rhs).within t.pos
      let (all, ⟨last, h'⟩) ← chainFrom precedence operand joined rest
      return (all, ⟨last, by simp only [List.length_cons]; omega⟩)
termination_by ts.length
decreasing_by simp only [List.length_cons]; omega

def chain (precedence : Precedence) (operand : Reader) : Reader := fun ts => do
  let (lhs, ⟨rest, h⟩) ← operand ts
  let (all, ⟨last, h'⟩) ← chainFrom precedence operand lhs rest
  return (all, ⟨last, by omega⟩)

def power (operand : Reader) : Reader :=
  chain exponential operand

def product (operand : Reader) : Reader :=
  chain multiplicative (power operand)

def sum (operand : Reader) : Reader :=
  chain additive (product operand)

def closedSum (operand : Reader) : Reader := fun ts => do
  let (inner, ⟨rest, h⟩) ← sum operand ts
  match rest, h with
  | [], _ => .error .unexpectedEnd
  | t :: after, h =>
    if t.lexeme = .closeParen then
      return (inner, ⟨after, by simp only [List.length_cons] at h; omega⟩)
    else .error (.unexpectedToken t)

/-- Reads with the reader of the next level down, which the token at `pos` opens; there is none where
the limit is reached. -/
def descend (deeper : Option Reader) (pos : Nat) (read : Reader → Reader) : Reader := fun ts =>
  match deeper with
  | some operand => read operand ts
  | none => .error (.nestingTooDeep pos)

/-- One operand. Signs, calls and parentheses leave what they hold to the reader one level down. -/
def operandWith (deeper : Option Reader) : Reader
  | [] => .error .unexpectedEnd
  | ⟨lexeme, pos⟩ :: ts =>
    match lexeme with
    | .number v => .ok (.leaf (.number v), ⟨ts, Nat.lt_succ_self _⟩)
    | .variable => .ok (.leaf .variable, ⟨ts, Nat.lt_succ_self _⟩)
    | .constant c => .ok (.leaf (.number c.value), ⟨ts, Nat.lt_succ_self _⟩)
    | .minus => do
      let (inner, ⟨rest, h⟩) ← descend deeper pos id ts
      let negated ← inner.negate.within pos
      return (negated, ⟨rest, Nat.lt_succ_of_lt h⟩)
    | .plus => do
      let (inner, ⟨rest, h⟩) ← descend deeper pos id ts
      return (inner, ⟨rest, Nat.lt_succ_of_lt h⟩)
    | .openParen => do
      let (inner, ⟨rest, h⟩) ← descend deeper pos closedSum ts
      return (inner, ⟨rest, Nat.lt_succ_of_lt h⟩)
    | .function f =>
      match ts with
      | ⟨.openParen, _⟩ :: ts => do
        let (arg, ⟨rest, h⟩) ← descend deeper pos closedSum ts
        let called ← (arg.call f).within pos
        return (called, ⟨rest, Nat.lt_succ_of_lt (Nat.lt_succ_of_lt h)⟩)
      | _ => .error (.missingCallParen f pos)
    | _ => .error (.unexpectedToken ⟨lexeme, pos⟩)

def operand : (levels : Nat) → Reader
  | 0 => operandWith none
  | levels + 1 => operandWith (some (operand levels))

/-- Whether parentheses match. Of the positions in `opened`, the innermost stands first; the first `)`
that closes nothing is reported, or else the outermost `(` that is never closed. -/
def checkParens (opened : List Nat) : List Token → Except FormulaError Unit
  | [] =>
    match opened.getLast? with
    | none => .ok ()
    | some pos => .error (.unmatchedOpenParen pos)
  | t :: ts =>
    match t.lexeme with
    | .openParen => checkParens (t.pos :: opened) ts
    | .closeParen =>
      match opened with
      | [] => .error (.unmatchedCloseParen t.pos)
      | _ :: outer => checkParens outer ts
    | _ => checkParens opened ts

end FormulaRoots.Grammar

namespace FormulaRoots
open Grammar

/-- The tree of a token list. Unmatched parentheses are reported before any other fault, and every
token has to be used. -/
def Tree.ofTokens (ts : List Token) : Except FormulaError Tree :=
  if ts.isEmpty then .error .emptyExpression
  else do
    checkParens [] ts
    let (m, ⟨rest, _⟩) ← sum (operand nestingLimit) ts
    match rest with
    | [] => return m.tree
    | t :: _ => .error (.unexpectedToken t)

end FormulaRoots
