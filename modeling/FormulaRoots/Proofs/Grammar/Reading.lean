import FormulaRoots.Proofs.Grammar.Derivation

/-! One equation for each step of reading, with the tokens that remain as a plain list. -/
namespace FormulaRoots

section
variable {ε α β : Type} {first : Except ε α} {next : α → Except ε β} {e : ε} {b : β}

/-- A computation in two parts succeeds with the second part, on what the first one yields. -/
theorem bind_eq_ok_iff : first >>= next = .ok b ↔ ∃ a, first = .ok a ∧ next a = .ok b := by
  cases first with
  | error cause => simp [bind, Except.bind]
  | ok a => simp [bind, Except.bind]

/-- A computation in two parts fails in the first part, or in the second one. -/
theorem bind_eq_error_iff :
    first >>= next = .error e ↔ first = .error e ∨ ∃ a, first = .ok a ∧ next a = .error e := by
  cases first with
  | error cause => simp [bind, Except.bind]
  | ok a => simp [bind, Except.bind]

end

namespace Grammar

def bare {P : List Token → Prop}
    (r : Except FormulaError (Measured × { rest : List Token // P rest })) :
    Except FormulaError (Measured × List Token) :=
  match r with
  | .ok (m, rest) => .ok (m, rest.val)
  | .error e => .error e

private theorem bare_ok {P : List Token → Prop} {m : Measured} {rest : List Token}
    {r : Except FormulaError (Measured × { rest : List Token // P rest })} (h : bare r = .ok (m, rest)) :
    P rest := by
  cases r with
  | error e => cases h
  | ok x =>
    cases h
    exact x.2.property

/-- The reader of a category, for phrases that open at most the given number of levels. -/
def Category.reader (c : Category) (levels : Nat) : Reader :=
  match c with
  | .sum => Grammar.sum (Grammar.operand levels)
  | .product => Grammar.product (Grammar.operand levels)
  | .power => Grammar.power (Grammar.operand levels)
  | .unary => Grammar.operand levels
  | .primary => Grammar.operand levels

theorem Category.reader_of_links {c d : Category} {p : Precedence} (hc : c.links = some (p, d))
    (levels : Nat) : c.reader levels = chain p (d.reader levels) := by
  obtain ⟨rfl, rfl, rfl⟩ | ⟨rfl, rfl, rfl⟩ | ⟨rfl, rfl, rfl⟩ := links_cases hc <;> rfl

def Category.Stops : Category → List Token → Prop
  | .sum, rest => ∀ t ∈ rest.head?, additive t.lexeme = none ∧ multiplicative t.lexeme = none ∧
      exponential t.lexeme = none
  | .product, rest => ∀ t ∈ rest.head?, multiplicative t.lexeme = none ∧
      exponential t.lexeme = none
  | .power, rest => ∀ t ∈ rest.head?, exponential t.lexeme = none
  | .unary, _ => True
  | .primary, _ => True

theorem Category.stops_nil (c : Category) : c.Stops [] := by
  cases c <;> simp [Category.Stops]

theorem Category.stops_closeParen (c : Category) (pos : Nat) (rest : List Token) :
    c.Stops (⟨.closeParen, pos⟩ :: rest) := by
  cases c <;> simp [Category.Stops, additive, multiplicative, exponential]

/-- Where a chain stops, its operands stop, and none of its operators follows. -/
theorem Category.Stops.links {c d : Category} {p : Precedence} {rest : List Token}
    (hc : c.links = some (p, d)) :
    c.Stops rest ↔ d.Stops rest ∧ ∀ t ∈ rest.head?, p t.lexeme = none := by
  obtain ⟨rfl, rfl, rfl⟩ | ⟨rfl, rfl, rfl⟩ | ⟨rfl, rfl, rfl⟩ := links_cases hc
  all_goals
    simp only [Category.Stops]
    grind

/-- An operator of a chain ends the operand before it. -/
theorem Category.stops_operator {c d : Category} {p : Precedence} {o : Token} {op : Operator}
    (hc : c.links = some (p, d)) (ho : p o.lexeme = some op) (rest : List Token) :
    d.Stops (o :: rest) := by
  obtain ⟨lexeme, pos⟩ := o
  obtain ⟨rfl, rfl, rfl⟩ | ⟨rfl, rfl, rfl⟩ | ⟨rfl, rfl, rfl⟩ := links_cases hc <;>
    cases lexeme <;> simp_all [Category.Stops, additive, multiplicative, exponential]

theorem Measured.within_of_le {m : Measured} (h : m.depth ≤ nestingLimit) (pos : Nat) :
    m.within pos = .ok m :=
  if_pos h

theorem Measured.within_of_lt {m : Measured} (h : nestingLimit < m.depth) (pos : Nat) :
    m.within pos = .error (.nestingTooDeep pos) :=
  if_neg (Nat.not_le.mpr h)

theorem bare_chain (p : Precedence) (read : Reader) (ts : List Token) :
    bare (chain p read ts) =
      (bare (read ts)).bind fun x => bare (chainFrom p read x.1 x.2) := by
  unfold chain
  cases h : read ts with
  | error e => rfl
  | ok x =>
    obtain ⟨lhs, rest, hr⟩ := x
    cases h' : chainFrom p read lhs rest with
    | error e => simp only [bare, bind, Except.bind, h']
    | ok y =>
      simp only [bare, bind, Except.bind, h']
      rfl

theorem bare_chainFrom_of_stop (p : Precedence) (read : Reader) (lhs : Measured) (ts : List Token)
    (h : ∀ t ∈ ts.head?, p t.lexeme = none) : bare (chainFrom p read lhs ts) = .ok (lhs, ts) := by
  cases ts with
  | nil =>
    rw [chainFrom]
    rfl
  | cons t after =>
    have ht : p t.lexeme = none := h t rfl
    rw [chainFrom]
    split
    · rfl
    · rename_i op hop
      rw [ht] at hop
      cases hop

theorem bare_chainFrom_cons (p : Precedence) (read : Reader) (lhs : Measured) {t : Token}
    {op : Operator} (after : List Token) (h : p t.lexeme = some op) :
    bare (chainFrom p read lhs (t :: after)) =
      (bare (read after)).bind fun x =>
        ((Measured.join op lhs x.1).within t.pos).bind fun m => bare (chainFrom p read m x.2) := by
  rw [chainFrom]
  split
  · rename_i hn
    rw [h] at hn
    cases hn
  · rename_i op' hop
    rw [h] at hop
    cases hop
    cases hr : read after with
    | error e => rfl
    | ok x =>
      obtain ⟨rhs, rest, hl⟩ := x
      cases hw : (Measured.join op lhs rhs).within t.pos with
      | error e => simp only [bare, bind, Except.bind, hw]
      | ok joined =>
        cases hc : chainFrom p read joined rest with
        | error e => simp only [bare, bind, Except.bind, hw, hc]
        | ok y =>
          simp only [bare, bind, Except.bind, hw, hc]
          rfl

/-- A chain stops, or goes on with an operator and one more operand. -/
theorem chain_induction {motive : Measured → List Token → Prop} (p : Precedence) (read : Reader)
    (stop : ∀ lhs ts, (∀ t ∈ ts.head?, p t.lexeme = none) → motive lhs ts)
    (step : ∀ lhs o op after, p o.lexeme = some op →
      (∀ rhs rest joined, bare (read after) = .ok (rhs, rest) → motive joined rest) →
      motive lhs (o :: after))
    (lhs : Measured) (ts : List Token) : motive lhs ts := by
  -- on the length, since an operand may take several tokens at once
  induction hn : ts.length using Nat.strongRecOn generalizing lhs ts with
  | ind n ih =>
    cases ts with
    | nil => exact stop lhs [] nofun
    | cons o after =>
      cases ho : p o.lexeme with
      | none => exact stop lhs (o :: after) (by simpa using ho)
      | some op =>
        refine step lhs o op after ho fun rhs rest joined hread => ih rest.length ?_ joined rest rfl
        have hshorter : rest.length < after.length := bare_ok hread
        rw [List.length_cons] at hn
        omega

def afterClosing : Measured × List Token → Except FormulaError (Measured × List Token)
  | (_, []) => .error .unexpectedEnd
  | (m, t :: after) => if t.lexeme = .closeParen then .ok (m, after) else .error (.unexpectedToken t)

theorem bare_closedSum (read : Reader) (ts : List Token) :
    bare (closedSum read ts) = (bare (Grammar.sum read ts)).bind afterClosing := by
  unfold closedSum
  cases h : Grammar.sum read ts with
  | error e => rfl
  | ok x =>
    obtain ⟨m, rest, hr⟩ := x
    cases rest with
    | nil => rfl
    | cons t after =>
      by_cases ht : t.lexeme = .closeParen
      · simp only [bare, bind, Except.bind, afterClosing, if_pos ht]
        rfl
      · simp only [bare, bind, Except.bind, afterClosing, if_neg ht]

theorem bare_operandWith_minus (read : Reader) (pos : Nat) (ts : List Token) :
    bare (operandWith (some read) (⟨.minus, pos⟩ :: ts)) =
      (bare (read ts)).bind fun x => (x.1.negate.within pos).bind fun m => .ok (m, x.2) := by
  simp only [operandWith, descend, id]
  cases h : read ts with
  | error e => rfl
  | ok x =>
    obtain ⟨m, rest, hr⟩ := x
    cases hw : m.negate.within pos with
    | error e => simp only [bare, bind, Except.bind, hw]
    | ok y =>
      simp only [bare, bind, Except.bind, hw]
      rfl

theorem bare_operandWith_plus (read : Reader) (pos : Nat) (ts : List Token) :
    bare (operandWith (some read) (⟨.plus, pos⟩ :: ts)) = bare (read ts) := by
  simp only [operandWith, descend, id]
  cases h : read ts with
  | error e => rfl
  | ok x => rfl

theorem bare_operandWith_openParen (read : Reader) (pos : Nat) (ts : List Token) :
    bare (operandWith (some read) (⟨.openParen, pos⟩ :: ts)) = bare (closedSum read ts) := by
  simp only [operandWith, descend]
  cases h : closedSum read ts with
  | error e => rfl
  | ok x => rfl

theorem bare_operandWith_call (read : Reader) (pos opened : Nat) (f : Elementary)
    (ts : List Token) :
    bare (operandWith (some read) (⟨.function f, pos⟩ :: ⟨.openParen, opened⟩ :: ts)) =
      (bare (closedSum read ts)).bind fun x =>
        ((x.1.call f).within pos).bind fun m => .ok (m, x.2) := by
  simp only [operandWith, descend]
  cases h : closedSum read ts with
  | error e => rfl
  | ok x =>
    obtain ⟨m, rest, hr⟩ := x
    cases hw : (m.call f).within pos with
    | error e => simp only [bare, bind, Except.bind, hw]
    | ok y =>
      simp only [bare, bind, Except.bind, hw]
      rfl

end Grammar
end FormulaRoots
