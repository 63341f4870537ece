import FormulaRoots.Proofs.Grammar.Acceptance

/-! The parser never looks at the place of a token; it only copies it into the error that it reports. So
tokens that stand elsewhere are read as the same tree, or refused for the same cause at the same token. -/
namespace FormulaRoots

def Token.move (place : Nat → Nat) (t : Token) : Token :=
  ⟨t.lexeme, place t.pos⟩

namespace FormulaError

def pos? : FormulaError → Option Nat
  | emptyExpression => none
  | unmatchedOpenParen pos => some pos
  | unmatchedCloseParen pos => some pos
  | unknownFunction _ pos => some pos
  | unknownIdentifier _ pos => some pos
  | missingCallParen _ pos => some pos
  | invalidNumber _ pos => some pos
  | unexpectedChar _ pos => some pos
  | unexpectedToken token => some token.pos
  | unexpectedEnd => none
  | nestingTooDeep pos => some pos

def move (place : Nat → Nat) : FormulaError → FormulaError
  | emptyExpression => emptyExpression
  | unmatchedOpenParen pos => unmatchedOpenParen (place pos)
  | unmatchedCloseParen pos => unmatchedCloseParen (place pos)
  | unknownFunction name pos => unknownFunction name (place pos)
  | unknownIdentifier name pos => unknownIdentifier name (place pos)
  | missingCallParen f pos => missingCallParen f (place pos)
  | invalidNumber literal pos => invalidNumber literal (place pos)
  | unexpectedChar ch pos => unexpectedChar ch (place pos)
  | unexpectedToken token => unexpectedToken (token.move place)
  | unexpectedEnd => unexpectedEnd
  | nestingTooDeep pos => nestingTooDeep (place pos)

private theorem pos?_move (place : Nat → Nat) (e : FormulaError) :
    (e.move place).pos? = e.pos?.map place := by
  cases e <;> rfl

end FormulaError

namespace Grammar

variable {α β : Type}

def moved (place : Nat → Nat) (f : α → α) : Except FormulaError α → Except FormulaError α
  | .ok a => .ok (f a)
  | .error e => .error (e.move place)

private theorem moved_bind {place : Nat → Nat} {f : α → α} {f' : β → β}
    {k k' : α → Except FormulaError β}
    (r : Except FormulaError α) (h : ∀ a, r = .ok a → k' (f a) = moved place f' (k a)) :
    (moved place f r).bind k' = moved place f' (r.bind k) := by
  cases r with
  | error e => rfl
  | ok a => exact h a rfl

abbrev Remains (place : Nat → Nat) (x : Measured × List Token) : Measured × List Token :=
  (x.1, x.2.map (Token.move place))

/-- The reader does not look at places. -/
def Follows (place : Nat → Nat) (read : Reader) : Prop :=
  ∀ ts, bare (read (ts.map (Token.move place))) = moved place (Remains place) (bare (read ts))

private theorem within_move (place : Nat → Nat) (m : Measured) (pos : Nat) :
    m.within (place pos) = moved place id (m.within pos) := by
  unfold Measured.within
  split <;> rfl

section
variable {place : Nat → Nat} {read : Reader}

private theorem Follows.chainFrom (h : Follows place read) (p : Precedence) (lhs : Measured)
    (ts : List Token) :
    bare (chainFrom p read lhs (ts.map (Token.move place))) =
      moved place (Remains place) (bare (chainFrom p read lhs ts)) := by
  refine chain_induction (motive := fun lhs ts =>
    bare (Grammar.chainFrom p read lhs (ts.map (Token.move place))) =
      moved place (Remains place) (bare (Grammar.chainFrom p read lhs ts))) p read ?_ ?_ lhs ts
  · intro lhs ts hstop
    rw [bare_chainFrom_of_stop p read lhs ts hstop, bare_chainFrom_of_stop]
    · rfl
    · cases ts with
      | nil => nofun
      | cons t ts => simpa [Token.move] using hstop
  · intro lhs t op after hop ih
    rw [List.map_cons, bare_chainFrom_cons p read lhs _ (t := t.move place) hop,
      bare_chainFrom_cons p read lhs after hop, h after]
    refine moved_bind _ fun x hx => ?_
    change ((Measured.join op lhs x.1).within (place t.pos)).bind _ = _
    rw [within_move]
    exact moved_bind _ fun m _ => ih x.1 x.2 m hx

private theorem Follows.chain (h : Follows place read) (p : Precedence) :
    Follows place (chain p read) := by
  intro ts
  rw [bare_chain, bare_chain, h ts]
  exact moved_bind _ fun x _ => h.chainFrom p x.1 x.2

private theorem Follows.sum (h : Follows place read) : Follows place (Grammar.sum read) :=
  ((h.chain exponential).chain multiplicative).chain additive

private theorem Follows.closedSum (h : Follows place read) :
    Follows place (Grammar.closedSum read) := by
  intro ts
  rw [bare_closedSum, bare_closedSum, h.sum ts]
  refine moved_bind _ fun x _ => ?_
  obtain ⟨m, rest⟩ := x
  cases rest with
  | nil => rfl
  | cons t after =>
    simp only [Remains, List.map_cons, afterClosing, Token.move]
    split <;> rfl

private theorem Follows.operandWith {deeper : Option Reader}
    (h : ∀ read, deeper = some read → Follows place read) :
    Follows place (operandWith deeper) := by
  intro ts
  cases ts with
  | nil => rfl
  | cons first ts =>
    obtain ⟨lexeme, pos⟩ := first
    rw [List.map_cons]
    cases lexeme with
    | minus =>
      cases deeper with
      | none => rfl
      | some read =>
        rw [Token.move, bare_operandWith_minus, bare_operandWith_minus, h read rfl ts]
        refine moved_bind _ fun x _ => ?_
        rw [within_move]
        exact moved_bind _ fun m _ => rfl
    | plus =>
      cases deeper with
      | none => rfl
      | some read =>
        rw [Token.move, bare_operandWith_plus, bare_operandWith_plus, h read rfl ts]
    | openParen =>
      cases deeper with
      | none => rfl
      | some read =>
        rw [Token.move, bare_operandWith_openParen, bare_operandWith_openParen, (h read rfl).closedSum ts]
    | function f =>
      cases ts with
      | nil => rfl
      | cons second ts =>
        obtain ⟨lexeme, opened⟩ := second
        cases lexeme with
        | openParen =>
          cases deeper with
          | none => rfl
          | some read =>
            rw [List.map_cons, Token.move, Token.move, bare_operandWith_call, bare_operandWith_call,
              (h read rfl).closedSum ts]
            refine moved_bind _ fun x _ => ?_
            rw [within_move]
            exact moved_bind _ fun m _ => rfl
        | _ => rfl
    | _ => rfl

private theorem follows_operand (place : Nat → Nat) (levels : Nat) :
    Follows place (operand levels) := by
  induction levels with
  | zero => exact .operandWith nofun
  | succ levels ih =>
    refine .operandWith fun read h => ?_
    cases h
    exact ih

private theorem checkParens_move (place : Nat → Nat) (opened : List Nat) (ts : List Token) :
    checkParens (opened.map place) (ts.map (Token.move place)) = moved place id (checkParens opened ts) := by
  induction ts generalizing opened with
  | nil =>
    simp only [List.map_nil, checkParens, List.getLast?_map]
    cases opened.getLast? <;> rfl
  | cons t ts ih =>
    obtain ⟨lexeme, pos⟩ := t
    cases lexeme with
    | openParen => exact ih (pos :: opened)
    | closeParen =>
      cases opened with
      | nil => rfl
      | cons _ outer => exact ih outer
    | _ => exact ih opened

end
end Grammar

open Grammar

namespace Tree

/-- Tokens at other places yield the same tree, or the same error at the place of the same token. -/
theorem ofTokens_move (place : Nat → Nat) (ts : List Token) :
    ofTokens (ts.map (Token.move place)) = moved place id (ofTokens ts) := by
  by_cases hne : ts = []
  · subst hne
    rfl
  · have hparens := checkParens_move place [] ts
    rw [ofTokens_of_ne_nil hne, ofTokens_of_ne_nil (by simpa using hne)]
    rw [List.map_nil] at hparens
    rw [hparens]
    refine moved_bind _ fun _ _ => ?_
    rw [show bare (Category.sum.reader nestingLimit (ts.map (Token.move place))) = _ from
      (follows_operand place nestingLimit).sum ts]
    refine moved_bind _ fun x _ => ?_
    obtain ⟨m, rest⟩ := x
    cases rest <;> rfl

/-- The place of an error is that of a token. -/
theorem exists_token_of_ofTokens {ts : List Token} {e : FormulaError} {pos : Nat}
    (h : ofTokens ts = .error e) (hpos : e.pos? = some pos) : ∃ t ∈ ts, t.pos = pos := by
  refine Classical.byContradiction fun hno => ?_
  -- only what is no place of a token is moved, so that the tokens and with them the error stay
  let place (n : Nat) : Nat := if n = pos then pos + 1 else n
  have hstay : ts.map (Token.move place) = ts := by
    refine (List.map_congr_left fun t ht => ?_).trans (List.map_id ts)
    have hne : t.pos ≠ pos := fun heq => hno ⟨t, ht, heq⟩
    simp only [Token.move, place, if_neg hne, id]
  have hmove := ofTokens_move place ts
  rw [hstay, h] at hmove
  have heq : e.pos? = (e.move place).pos? := congrArg FormulaError.pos? (Except.error.inj hmove)
  rw [FormulaError.pos?_move, hpos] at heq
  simp [place] at heq

end Tree
end FormulaRoots
