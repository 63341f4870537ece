import FormulaRoots.Proofs.Grammar.Reading

/-! Reading with a cursor. A walk takes one token after the other and counts the levels that are open, where
a reader is handed the tokens that remain and the levels that are left. -/
namespace FormulaRoots.Grammar

structure Cursor where
  taken : Nat
  nesting : Nat

namespace Cursor

def forward (s : Cursor) : Cursor := { s with taken := s.taken + 1 }

def down (s : Cursor) : Cursor := { s with nesting := s.nesting + 1 }

def up (s : Cursor) : Cursor := { s with nesting := s.nesting - 1 }

@[simp]
theorem taken_forward (s : Cursor) : s.forward.taken = s.taken + 1 := rfl

end Cursor

abbrev Behind (ts : List Token) (n : Nat) :=
  { s : Cursor // n < s.taken ∧ s.taken ≤ ts.length }

/-- What a walk that begins behind `n` tokens yields: a tree, and the cursor behind the tokens of the tree. -/
abbrev Walk (ts : List Token) (n : Nat) :=
  Except FormulaError (Measured × Behind ts n)

namespace Walk
variable {ts : List Token} {m n : Nat}

def plain (w : Walk ts n) : Except FormulaError (Measured × Cursor) :=
  w.map fun x => (x.1, x.2.val)

def since (w : Walk ts m) (h : n ≤ m) : Walk ts n := do
  let (tree, ⟨s, hs⟩) ← w
  return (tree, ⟨s, by omega⟩)

def nested (s : Cursor) (pos : Nat) (inner : (s' : Cursor) → s'.taken = s.taken → Walk ts s'.taken) :
    Walk ts s.taken :=
  if s.nesting < nestingLimit then do
    let (tree, ⟨s', hs'⟩) ← inner s.down rfl
    return (tree, ⟨s'.up, hs'⟩)
  else .error (.nestingTooDeep pos)

def closed (w : Walk ts n) : Walk ts n := do
  let (tree, ⟨s, hs⟩) ← w
  if h : s.taken < ts.length then
    if ts[s.taken].lexeme = .closeParen then
      return (tree, ⟨s.forward, by simp only [Cursor.taken_forward]; omega⟩)
    else .error (.unexpectedToken ts[s.taken])
  else .error .unexpectedEnd

end Walk
open Walk

/-- How many categories a phrase may be handed on to before a token is taken. -/
def Category.rank : Category → Nat
  | .sum => 4
  | .product => 3
  | .power => 2
  | .unary => 1
  | .primary => 0

mutual

def Category.walk (ts : List Token) (c : Category) (s : Cursor) : Walk ts s.taken :=
  match c with
  | .sum => do
    let (lhs, ⟨s', hs'⟩) ← Category.walk ts .product s
    Category.walkOn ts additive .product lhs ⟨s', hs'⟩
  | .product => do
    let (lhs, ⟨s', hs'⟩) ← Category.walk ts .power s
    Category.walkOn ts multiplicative .power lhs ⟨s', hs'⟩
  | .power => do
    let (lhs, ⟨s', hs'⟩) ← Category.walk ts .unary s
    Category.walkOn ts exponential .unary lhs ⟨s', hs'⟩
  | .unary =>
    if h : s.taken < ts.length then
      match ts[s.taken] with
      | ⟨.minus, pos⟩ => do
        let (inner, s') ← (nested s.forward pos fun down hdown => Category.walk ts .unary down).since
          (Nat.le_succ s.taken)
        let negated ← inner.negate.within pos
        return (negated, s')
      | ⟨.plus, pos⟩ =>
        (nested s.forward pos fun down hdown => Category.walk ts .unary down).since (Nat.le_succ s.taken)
      | _ => Category.walk ts .primary s
    else Category.walk ts .primary s
  | .primary =>
    if h : s.taken < ts.length then
      let leaf (t : Tree) : Walk ts s.taken := .ok (.leaf t, ⟨s.forward, Nat.lt_succ_self s.taken, h⟩)
      match ts[s.taken] with
      | ⟨.number v, _⟩ => leaf (.number v)
      | ⟨.variable, _⟩ => leaf .variable
      | ⟨.constant k, _⟩ => leaf (.number k.value)
      | ⟨.openParen, pos⟩ =>
        (nested s.forward pos fun down hdown => closed (Category.walk ts .sum down)).since (Nat.le_succ s.taken)
      | ⟨.function f, pos⟩ =>
        match ts[s.forward.taken]? with
        | some ⟨.openParen, _⟩ => do
          let (arg, s') ← (nested s.forward.forward pos fun down hdown =>
            closed (Category.walk ts .sum down)).since (Nat.le_add_right s.taken 2)
          let called ← (arg.call f).within pos
          return (called, s')
        | _ => .error (.missingCallParen f pos)
      | t => .error (.unexpectedToken t)
    else .error .unexpectedEnd
termination_by (ts.length - s.taken, c.rank)
-- a phrase that is handed on lowers the rank, and every other step takes a token
decreasing_by all_goals simp only [Prod.lex_def, Category.rank, Cursor.taken_forward, true_and] at *; omega

def Category.walkOn (ts : List Token) {n : Nat} (precedence : Precedence) (operands : Category) (lhs : Measured)
    (s : Behind ts n) : Walk ts n :=
  if h : s.val.taken < ts.length then
    match precedence ts[s.val.taken].lexeme with
    | none => .ok (lhs, s)
    | some op => do
      let (rhs, ⟨s', hs'⟩) ← Category.walk ts operands s.val.forward
      let joined ← (Measured.join op lhs rhs).within ts[s.val.taken].pos
      Category.walkOn ts precedence operands joined ⟨s', by simp only [Cursor.taken_forward] at hs'; omega⟩
  else .ok (lhs, s)
termination_by (ts.length - s.val.taken, 0)
decreasing_by all_goals simp only [Prod.lex_def, Category.rank, Cursor.taken_forward] at *; omega

end

/-- A chain is one operand and all that are joined with it. -/
theorem Category.walk_of_links {c d : Category} {p : Precedence} (hc : c.links = some (p, d))
    (ts : List Token) (s : Cursor) :
    c.walk ts s = d.walk ts s >>= fun x => Category.walkOn ts p d x.1 x.2 := by
  obtain ⟨rfl, rfl, rfl⟩ | ⟨rfl, rfl, rfl⟩ | ⟨rfl, rfl, rfl⟩ := links_cases hc <;> rw [Category.walk]

end FormulaRoots.Grammar
