import FormulaRoots.Proofs.Decimal.Text
import FormulaRoots.Proofs.Formula.Text
import FormulaRoots.Proofs.Scan.Spacing

/-! The text of a tree is read back as the tree. Its parentheses leave no choice to precedence and
association. -/
namespace FormulaRoots
open Binary64 Grammar Unicode

namespace Tree

def numbers : Tree → List Float
  | number v => [v]
  | .variable => []
  | negate inner => inner.numbers
  | binary _ lhs rhs => lhs.numbers ++ rhs.numbers
  | call _ arg => arg.numbers

/-- How many signs, calls and parentheses are open at the deepest point of the text of a tree. -/
def nesting : Tree → Nat
  | number _ => 0
  | .variable => 0
  | negate inner => 2 + inner.nesting
  | binary _ lhs rhs => 1 + max lhs.nesting rhs.nesting
  | call _ arg => 1 + arg.nesting

end Tree

/-! ### Derivations -/

def Operator.lexeme : Operator → Lexeme
  | add => .plus
  | sub => .minus
  | mul => .star
  | div => .slash
  | pow => .caret

namespace Grammar.Derives
variable {ts ls rs : List Token} {t l r : Tree} {m n : Nat}

private theorem of_primary (h : Derives .primary ts t n) : ∀ c, Derives c ts t n
  | .primary => h
  | .unary => .unsigned h
  | .power => .operand rfl (.unsigned h)
  | .product => .operand rfl (.operand rfl (.unsigned h))
  | .sum => .operand rfl (.operand rfl (.operand rfl (.unsigned h)))

private theorem sum : ∀ {c}, Derives c ts t n → Derives .sum ts t n
  | .primary, h => h.of_primary .sum
  | .unary, h => .operand rfl (.operand rfl (.operand rfl h))
  | .power, h => .operand rfl (.operand rfl h)
  | .product, h => .operand rfl h
  | .sum, h => h

private theorem binary (op : Operator) (pos : Nat) (hl : Derives .primary ls l m)
    (hr : Derives .primary rs r n) :
    Derives .sum (ls ++ ⟨op.lexeme, pos⟩ :: rs) (.binary op l r) (max m n) := by
  cases op with
  | add | sub => exact .join rfl (hl.of_primary .sum) rfl (hr.of_primary .product)
  | mul | div => exact (Derives.join rfl (hl.of_primary .product) rfl (hr.of_primary .power)).sum
  | pow => exact (Derives.join rfl (hl.of_primary .power) rfl (hr.of_primary .unary)).sum

end Grammar.Derives

/-! ### Scanning -/

namespace Token

/-- At `pos` the characters `cs` in front of `rest` are read as the tokens `ts`. -/
def Reads (pos : Nat) (cs rest : List Char) (ts : List Token) : Prop :=
  scanFrom pos 0 (cs ++ rest) = (scanFrom (pos + cs.length) 0 rest).map (ts ++ ·)

variable {pos : Nat} {cs ds rest : List Char} {ts us : List Token}

private theorem Reads.append (h : Reads pos cs (ds ++ rest) ts)
    (h' : Reads (pos + cs.length) ds rest us) :
    Reads pos (cs ++ ds) rest (ts ++ us) := by
  rw [Reads, List.append_assoc, h, h', List.length_append, Nat.add_assoc]
  cases scanFrom (pos + (cs.length + ds.length)) 0 rest with
  | error e => rfl
  | ok later => exact congrArg Except.ok (List.append_assoc ..).symm

private theorem reads_of_spells {word : List Char} {lexeme : Lexeme} (h : lexeme.Spells word rest)
    (pos : Nat) :
    Reads pos word rest [⟨lexeme, pos⟩] :=
  scanFrom_spelled_append h pos

private theorem reads_sign {c : Char} {lexeme : Lexeme} (h : (c, lexeme) ∈ Lexeme.signs) (pos : Nat)
    (rest : List Char) :
    Reads pos [c] rest [⟨lexeme, pos⟩] :=
  reads_of_spells (.sign h rest) pos

private theorem reads_blank (hcs : IsBlank cs) (pos : Nat) (rest : List Char) :
    Reads pos cs rest [] := by
  rw [Reads, scanFrom_blank_append hcs]
  cases scanFrom (pos + cs.length) 0 rest <;> rfl

private theorem Reads.parens (h : Reads (pos + 1) cs (')' :: rest) ts) :
    ∃ closed, Reads pos ('(' :: (cs ++ [')'])) rest (⟨.openParen, pos⟩ :: (ts ++ [⟨.closeParen, closed⟩])) :=
  ⟨_, (reads_sign (by decide) pos _).append (h.append (reads_sign (by decide) _ rest))⟩

end Token

private theorem Operator.exists_sign (op : Operator) :
    ∃ c, op.symbol.toList = [c] ∧ (c, op.lexeme) ∈ Lexeme.signs := by
  cases op <;> exact ⟨_, rfl, by decide⟩

private theorem Elementary.spells_name (f : Elementary) (rest : List Char) :
    Lexeme.Spells f.name.toList ('(' :: rest) (.function f) := by
  have hletters : f.name.toList.all isAlphabetic = true := by
    cases f <;> decide +kernel
  have hparen : isAlphabetic '(' = false := by decide +kernel
  refine .name (isRun_of_all hletters (by simp [hparen])) ?_
  cases f <;> decide +kernel

namespace Tree

private theorem toList_render_negate (inner : Tree) :
    (negate inner).render.toList = '(' :: ('-' :: inner.render.toList ++ [')']) := by
  simp only [render, String.toList_append]
  rfl

private theorem toList_render_binary (op : Operator) (lhs rhs : Tree) :
    (binary op lhs rhs).render.toList =
    '(' :: (lhs.render.toList ++ ([' '] ++ (op.symbol.toList ++ ([' '] ++ rhs.render.toList))) ++ [')']) := by
  simp only [render, String.toList_append, List.append_assoc]
  rfl

private theorem toList_render_call (f : Elementary) (arg : Tree) :
    (call f arg).render.toList = f.name.toList ++ '(' :: (arg.render.toList ++ [')']) := by
  simp only [render, String.toList_append, List.append_assoc]
  rfl

/-- At the head of a text, the text of a tree is read as a primary phrase with that tree. -/
theorem reads_render (t : Tree) (ht : ∀ v ∈ t.numbers, v.isFinite = true ∧ signBit v = false) (pos : Nat)
    {rest : List Char} (hrest : Closes rest) :
    ∃ ts, Token.Reads pos t.render.toList rest ts ∧ Derives .primary ts t t.nesting := by
  -- wherever the tree stands in the whole text, and whatever may follow it there
  induction t generalizing pos rest with
  | number v =>
    obtain ⟨hfinite, hsign⟩ := ht v (List.mem_singleton_self v)
    exact ⟨_, Token.reads_of_spells (Lexeme.spells_text hfinite hsign hrest) pos, .literal v pos⟩
  | «variable» =>
    have hword : IsRun isAlphabetic ['x'] rest := by
      refine ⟨List.forall_mem_singleton.mpr (by decide +kernel), fun c hc => ?_⟩
      rcases hrest c hc with rfl | rfl <;> decide +kernel
    exact ⟨_, Token.reads_of_spells (.name hword (by decide +kernel)) pos, .unknown pos⟩
  | negate inner ih =>
    obtain ⟨ts, hreads, hderives⟩ := ih ht (pos + 1 + 1) (closes_cons (.inr rfl) rest)
    have hminus : ('-', Lexeme.minus) ∈ Lexeme.signs := by decide
    obtain ⟨closed, hparens⟩ := ((Token.reads_sign hminus (pos + 1) _).append hreads).parens
    rw [toList_render_negate, nesting, Nat.add_comm]
    exact ⟨_, hparens, .group pos closed (Derives.negate (pos + 1) (hderives.of_primary .unary)).sum⟩
  | binary op lhs rhs ihl ihr =>
    obtain ⟨hlhs, hrhs⟩ := List.forall_mem_append.mp ht
    obtain ⟨c, hsymbol, hsign⟩ := op.exists_sign
    have hmiddle := closes_cons (.inl rfl) (c :: ' ' :: (rhs.render.toList ++ ')' :: rest))
    obtain ⟨ls, hreadsl, hl⟩ := ihl hlhs (pos + 1) hmiddle
    let place := pos + 1 + lhs.render.toList.length + 1
    obtain ⟨rs, hreadsr, hr⟩ := ihr hrhs (place + 1 + 1) (closes_cons (.inr rfl) rest)
    have hoperand := (Token.reads_blank isBlank_space (place + 1) _).append hreadsr
    have hoperator := (Token.reads_sign hsign place _).append hoperand
    have hspaced := (Token.reads_blank isBlank_space _ _).append hoperator
    obtain ⟨closed, hparens⟩ := (hreadsl.append hspaced).parens
    rw [toList_render_binary, hsymbol, nesting, Nat.add_comm]
    exact ⟨_, hparens, .group pos closed (hl.binary op place hr)⟩
  | call f arg ih =>
    obtain ⟨ts, hreads, hderives⟩ := ih ht (pos + f.name.toList.length + 1) (closes_cons (.inr rfl) rest)
    obtain ⟨closed, hparens⟩ := hreads.parens
    rw [toList_render_call, nesting, Nat.add_comm]
    exact ⟨_, (Token.reads_of_spells (f.spells_name _) pos).append hparens,
      .call f pos _ closed hderives.sum⟩

end Tree

/-- The text of a tree within the limits is read as the tree, if its numbers are finite and without a sign. -/
theorem Expression.ofText_render (t : Tree) (hnumbers : ∀ v ∈ t.numbers, v.isFinite = true ∧ signBit v = false)
    (hdepth : t.depth ≤ 256) (hnesting : t.nesting ≤ 256) :
    ∃ e, ofText t.render = .ok e ∧ e.formula.tree = t := by
  have hend : Closes [] := nofun
  obtain ⟨ts, hreads, hderives⟩ := t.reads_render hnumbers 0 hend
  have hscan : Token.scan t.render.toList = .ok ts := by
    rw [Token.Reads, List.append_nil] at hreads
    exact hreads.trans (congrArg Except.ok (List.append_nil ts))
  obtain ⟨tokens, htrim, rfl⟩ := Token.scan_trim hscan
  have hderives : Derives .sum tokens t t.nesting := hderives.sum.of_lexemes (by simp [Token.move])
  have hread := ofText_of_scan htrim
  rw [String.ofList_toList, (Tree.ofTokens_of_derives hderives).1 hnesting hdepth] at hread
  exact ⟨_, hread, rfl⟩

/-- A sign inside a root, which brings parentheses of its own. -/
theorem Expression.ofText_render_negated :
    let t : Tree := .binary .mul .variable (.call .sqrt (.negate (.number 2.5)))
    (∀ v ∈ t.numbers, v.isFinite = true ∧ signBit v = false) ∧ t.depth ≤ 256 ∧ t.nesting ≤ 256 ∧
    t.render = "(x * sqrt((-2.5)))" ∧ ∃ e, ofText "(x * sqrt((-2.5)))" = .ok e ∧ e.formula.tree = t := by
  intro t
  have hnumbers : ∀ v ∈ t.numbers, v.isFinite = true ∧ signBit v = false := by decide +kernel
  have hrender : t.render = "(x * sqrt((-2.5)))" := by decide +kernel
  have hread := ofText_render t hnumbers (by decide) (by decide)
  rw [hrender] at hread
  exact ⟨hnumbers, by decide, by decide, hrender, hread⟩

end FormulaRoots
