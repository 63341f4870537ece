import FormulaRoots.Formula.Parse

/-! The grammar of formulas as a relation between token lists and trees. A derivation also counts
the signs, calls and parentheses that are open at its deepest point. -/
namespace FormulaRoots

def Tree.depth : Tree → Nat
  | number _ => 1
  | .variable => 1
  | negate inner => inner.depth + 1
  | binary _ lhs rhs => 1 + max lhs.depth rhs.depth
  | call _ arg => arg.depth + 1

namespace Grammar

inductive Category where
  | sum
  | product
  | power
  | unary
  | primary

/-- The operators by which phrases of a category are chained, and the category of their operands. -/
def Category.links : Category → Option (Precedence × Category)
  | sum => some (fun x => [(.plus, .add), (.minus, .sub)].lookup x, product)
  | product => some (fun x => [(.star, .mul), (.slash, .div)].lookup x, power)
  | power => some (fun x => [(.caret, .pow)].lookup x, unary)
  | unary => none
  | primary => none

/-- The tokens form a phrase of the category with this tree, and the number is how many signs, calls and
parentheses are open at its deepest point. The left operand of a chain is the chain before it, so
chains associate to the left. -/
inductive Derives : Category → List Token → Tree → Nat → Prop where
  | operand {c d : Category} {p : Precedence} {ts : List Token} {t : Tree} {n : Nat}
      (hc : c.links = some (p, d)) (h : Derives d ts t n) : Derives c ts t n
  | join {c d : Category} {p : Precedence} {ls rs : List Token} {o : Token} {op : Operator}
      {l r : Tree} {m n : Nat} (hc : c.links = some (p, d)) (hl : Derives c ls l m)
      (ho : p o.lexeme = some op) (hr : Derives d rs r n) :
      Derives c (ls ++ o :: rs) (.binary op l r) (max m n)
  | negate {ts : List Token} {t : Tree} {n : Nat} (pos : Nat) (h : Derives .unary ts t n) :
      Derives .unary (⟨.minus, pos⟩ :: ts) (.negate t) (n + 1)
  | plus {ts : List Token} {t : Tree} {n : Nat} (pos : Nat) (h : Derives .unary ts t n) :
      Derives .unary (⟨.plus, pos⟩ :: ts) t (n + 1)
  | unsigned {ts : List Token} {t : Tree} {n : Nat} (h : Derives .primary ts t n) :
      Derives .unary ts t n
  | literal (v : Float) (pos : Nat) : Derives .primary [⟨.number v, pos⟩] (.number v) 0
  | unknown (pos : Nat) : Derives .primary [⟨.variable, pos⟩] .variable 0
  | e (pos : Nat) : Derives .primary [⟨.constant .e, pos⟩] (.number 2.718281828459045) 0
  | pi (pos : Nat) : Derives .primary [⟨.constant .pi, pos⟩] (.number 3.141592653589793) 0
  | call {ts : List Token} {t : Tree} {n : Nat} (f : Elementary) (pos opened closed : Nat)
      (h : Derives .sum ts t n) :
      Derives .primary (⟨.function f, pos⟩ :: ⟨.openParen, opened⟩ :: (ts ++ [⟨.closeParen, closed⟩]))
        (.call f t) (n + 1)
  | group {ts : List Token} {t : Tree} {n : Nat} (opened closed : Nat) (h : Derives .sum ts t n) :
      Derives .primary (⟨.openParen, opened⟩ :: (ts ++ [⟨.closeParen, closed⟩])) t (n + 1)

theorem Derives.constant (k : Constant) (pos : Nat) :
    Derives .primary [⟨.constant k, pos⟩] (.number k.value) 0 := by
  cases k with
  | e => exact .e pos
  | pi => exact .pi pos

/-- No phrase is empty. -/
theorem Derives.ne_nil {c : Category} {ts : List Token} {t : Tree} {n : Nat}
    (h : Derives c ts t n) : ts ≠ [] := by
  induction h with
  | operand hc h ih => exact ih
  | unsigned h ih => exact ih
  | join hc hl ho hr ihl ihr => simp
  | _ => simp

/-! ### Chains as they are read -/

theorem Category.links_sum : sum.links = some (additive, product) := by
  simp only [links, Option.some.injEq, Prod.mk.injEq, and_true]
  funext x
  cases x <;> rfl

theorem Category.links_product : product.links = some (multiplicative, power) := by
  simp only [links, Option.some.injEq, Prod.mk.injEq, and_true]
  funext x
  cases x <;> rfl

theorem Category.links_power : power.links = some (exponential, unary) := by
  simp only [links, Option.some.injEq, Prod.mk.injEq, and_true]
  funext x
  cases x <;> rfl

/-- The parser knows the operators of the grammar and no others. -/
theorem Category.links_cases {c d : Category} {p : Precedence} (hc : c.links = some (p, d)) :
    (c = sum ∧ p = additive ∧ d = product) ∨ (c = product ∧ p = multiplicative ∧ d = power) ∨
      (c = power ∧ p = exponential ∧ d = unary) := by
  cases c with
  | sum =>
    obtain ⟨rfl, rfl⟩ := Prod.mk.inj (Option.some.inj (links_sum.symm.trans hc))
    exact .inl ⟨rfl, rfl, rfl⟩
  | product =>
    obtain ⟨rfl, rfl⟩ := Prod.mk.inj (Option.some.inj (links_product.symm.trans hc))
    exact .inr (.inl ⟨rfl, rfl, rfl⟩)
  | power =>
    obtain ⟨rfl, rfl⟩ := Prod.mk.inj (Option.some.inj (links_power.symm.trans hc))
    exact .inr (.inr ⟨rfl, rfl, rfl⟩)
  | unary => cases hc
  | primary => cases hc

/-- An operator of any precedence is no parenthesis. -/
theorem Category.links_lexeme {c d : Category} {p : Precedence} {x : Lexeme} {op : Operator}
    (hc : c.links = some (p, d)) (ho : p x = some op) :
    x = .plus ∨ x = .minus ∨ x = .star ∨ x = .slash ∨ x = .caret := by
  obtain ⟨-, rfl, -⟩ | ⟨-, rfl, -⟩ | ⟨-, rfl, -⟩ := links_cases hc <;>
    cases x <;> simp [additive, multiplicative, exponential] at ho ⊢

/-- The parentheses of a phrase match, so they leave nothing open and close nothing from outside. -/
theorem Derives.checkParens_append {c : Category} {ts : List Token} {t : Tree} {n : Nat}
    (h : Derives c ts t n) (opened : List Nat) (rest : List Token) :
    checkParens opened (ts ++ rest) = checkParens opened rest := by
  induction h generalizing opened rest with
  | operand hc h ih => exact ih opened rest
  | unsigned h ih => exact ih opened rest
  | join hc hl ho hr ihl ihr =>
    rename_i o _ _ _ _ _
    rw [List.append_assoc, ihl, List.cons_append]
    obtain ⟨lexeme, pos⟩ := o
    rcases Category.links_lexeme hc ho with rfl | rfl | rfl | rfl | rfl <;>
      exact ihr opened rest
  | negate pos h ih => exact ih opened rest
  | plus pos h ih => exact ih opened rest
  | literal v pos => rfl
  | unknown pos => rfl
  | e pos => rfl
  | pi pos => rfl
  | call f pos opened' closed h ih =>
    simp only [List.cons_append, List.append_assoc, checkParens]
    rw [ih]
    rfl
  | group opened' closed h ih =>
    simp only [List.cons_append, List.append_assoc, checkParens]
    rw [ih]
    rfl

/-- The grammar does not look at the places of tokens. -/
theorem Derives.of_lexemes {c : Category} {ts us : List Token} {t : Tree} {n : Nat}
    (h : Derives c ts t n) (hu : us.map Token.lexeme = ts.map Token.lexeme) : Derives c us t n := by
  induction h generalizing us with
  | operand hc h ih => exact .operand hc (ih hu)
  | unsigned h ih => exact .unsigned (ih hu)
  | join hc hl ho hr ihl ihr =>
    rw [List.map_append, List.map_cons] at hu
    obtain ⟨ls, tail, rfl, hls, htail⟩ := List.map_eq_append_iff.mp hu
    obtain ⟨o, rs, rfl, hlexeme, hrs⟩ := List.map_eq_cons_iff.mp htail
    exact .join hc (ihl hls) (hlexeme ▸ ho) (ihr hrs)
  | negate pos h ih =>
    obtain ⟨⟨lexeme, pos⟩, rest, rfl, rfl, hrest⟩ := List.map_eq_cons_iff.mp hu
    exact .negate pos (ih hrest)
  | plus pos h ih =>
    obtain ⟨⟨lexeme, pos⟩, rest, rfl, rfl, hrest⟩ := List.map_eq_cons_iff.mp hu
    exact .plus pos (ih hrest)
  | literal v pos =>
    obtain ⟨⟨lexeme, pos⟩, rfl, rfl⟩ := List.map_eq_singleton_iff.mp hu
    exact .literal v pos
  | unknown pos =>
    obtain ⟨⟨lexeme, pos⟩, rfl, rfl⟩ := List.map_eq_singleton_iff.mp hu
    exact .unknown pos
  | e pos =>
    obtain ⟨⟨lexeme, pos⟩, rfl, rfl⟩ := List.map_eq_singleton_iff.mp hu
    exact .e pos
  | pi pos =>
    obtain ⟨⟨lexeme, pos⟩, rfl, rfl⟩ := List.map_eq_singleton_iff.mp hu
    exact .pi pos
  | call f pos opened closed h ih =>
    rw [List.map_cons, List.map_cons, List.map_append] at hu
    obtain ⟨⟨name, pos⟩, tail, rfl, rfl, htail⟩ := List.map_eq_cons_iff.mp hu
    obtain ⟨⟨paren, opened⟩, body, rfl, rfl, hbody⟩ := List.map_eq_cons_iff.mp htail
    obtain ⟨inner, last, rfl, hinner, hlast⟩ := List.map_eq_append_iff.mp hbody
    obtain ⟨⟨paren, closed⟩, rfl, rfl⟩ := List.map_eq_singleton_iff.mp hlast
    exact .call f pos opened closed (ih hinner)
  | group opened closed h ih =>
    rw [List.map_cons, List.map_append] at hu
    obtain ⟨⟨paren, opened⟩, body, rfl, rfl, hbody⟩ := List.map_eq_cons_iff.mp hu
    obtain ⟨inner, last, rfl, hinner, hlast⟩ := List.map_eq_append_iff.mp hbody
    obtain ⟨⟨paren, closed⟩, rfl, rfl⟩ := List.map_eq_singleton_iff.mp hlast
    exact .group opened closed (ih hinner)

end Grammar
end FormulaRoots
