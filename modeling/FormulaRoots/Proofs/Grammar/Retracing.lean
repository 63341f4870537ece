import FormulaRoots.Proofs.Grammar.Faults
import FormulaRoots.Proofs.Grammar.Walk

/-! A walk computes what the reader of its category does with the tokens in front of the cursor. So one that
finds a phrase has left every level that it entered, and has measured the depth of the tree. -/
namespace FormulaRoots.Grammar
open Walk

/-- The walk ends as the reading does: with the same tree in front of the same tokens and with `n` levels open,
or with the same error. -/
inductive Ends {ts : List Token} {start : Nat} (n : Nat) :
    Except FormulaError (Measured × List Token) → Walk ts start → Prop
  | failed (e : FormulaError) : Ends n (.error e) (.error e)
  | found (m : Measured) (s : Behind ts start) (hn : s.val.nesting = n) :
      Ends n (.ok (m, ts.drop s.val.taken)) (.ok (m, s))

/-- From every cursor with `n` open levels, the walk ends as reading the tokens in front of the cursor. -/
def Retraces (ts : List Token) (n : Nat) (walk : (s : Cursor) → Walk ts s.taken) (read : Reader) : Prop :=
  ∀ s : Cursor, s.nesting = n → Ends n (bare (read (ts.drop s.taken))) (walk s)

variable {ts : List Token} {s : Cursor} {m : Measured} {n a b pos : Nat} {read : Reader}

section
variable {r : Except FormulaError (Measured × List Token)} {w : Walk ts a}

private theorem Ends.bind {inner : Nat}
    {f : Measured × List Token → Except FormulaError (Measured × List Token)}
    {k : Measured × Behind ts a → Walk ts b} (h : Ends inner r w)
    (hnext : ∀ m s, r = .ok (m, ts.drop s.val.taken) → s.val.nesting = inner →
      Ends n (f (m, ts.drop s.val.taken)) (k (m, s))) :
    Ends n (r.bind f) (w >>= k) := by
  cases h with
  | failed e => exact .failed e
  | found m s hn => exact hnext m s rfl hn

private theorem Ends.within_bind {f : Measured → Except FormulaError (Measured × List Token)}
    {k : Measured → Walk ts a} (h : ∀ kept, Ends n (f kept) (k kept)) :
    Ends n ((m.within pos).bind f) (m.within pos >>= k) := by
  cases m.within pos with
  | error e => exact .failed e
  | ok kept => exact h kept

private theorem Ends.since (h : Ends n r w) (hle : b ≤ a) : Ends n r (w.since hle) := by
  cases h with
  | failed e => exact .failed e
  | found m s hn => exact .found m ⟨s.val, _⟩ hn

private theorem Ends.nested {inner : (s' : Cursor) → s'.taken = s.taken → Walk ts s'.taken}
    (hlt : s.nesting < nestingLimit) (pos : Nat) (h : Ends (s.nesting + 1) r (inner s.down rfl)) :
    Ends s.nesting r (Walk.nested s pos inner) := by
  rw [Walk.nested, if_pos hlt]
  generalize inner s.down rfl = w at h
  cases h with
  | failed e => exact .failed e
  | found m s' hn =>
    have hup : s'.val.up.nesting = s.nesting := by
      change s'.val.nesting - 1 = s.nesting
      omega
    exact .found m ⟨s'.val.up, s'.property⟩ hup

private theorem drop_of_lt (h : s.taken < ts.length) :
    ts.drop s.taken = ts[s.taken] :: ts.drop s.forward.taken :=
  List.drop_eq_getElem_cons h

private theorem drop_of_not_lt (h : ¬ s.taken < ts.length) : ts.drop s.taken = [] :=
  List.drop_eq_nil_of_le (Nat.le_of_not_lt h)

private theorem Ends.closed (h : Ends n r w) : Ends n (r.bind afterClosing) (Walk.closed w) := by
  refine h.bind fun m s _ hn => ?_
  by_cases hlt : s.val.taken < ts.length
  · simp only [dif_pos hlt, drop_of_lt hlt, afterClosing]
    by_cases hc : ts[s.val.taken].lexeme = .closeParen
    · rw [if_pos hc, if_pos hc]
      exact .found m ⟨s.val.forward, _⟩ hn
    · rw [if_neg hc, if_neg hc]
      exact .failed _
  · simp only [dif_neg hlt, drop_of_not_lt hlt]
    exact .failed _

end

/-! ### Chains -/

private theorem Retraces.walkOn {d : Category} (h : Retraces ts n (d.walk ts) read) (p : Precedence)
    (lhs : Measured)
    (rest : List Token) (s : Behind ts a) (hn : s.val.nesting = n) (hrest : ts.drop s.val.taken = rest) :
    Ends n (bare (chainFrom p read lhs rest)) (Category.walkOn ts p d lhs s) := by
  -- on what is read, since the reading decides where the chain stops and the cursor only follows
  induction lhs, rest using chain_induction p read generalizing s with
  | stop lhs rest hstop =>
    subst hrest
    rw [bare_chainFrom_of_stop p read lhs _ hstop, Category.walkOn]
    by_cases hlt : s.val.taken < ts.length
    · rw [drop_of_lt hlt] at hstop
      rw [dif_pos hlt, hstop _ rfl]
      exact .found lhs s hn
    · rw [dif_neg hlt]
      exact .found lhs s hn
  | step lhs o op after ho ih =>
    by_cases hlt : s.val.taken < ts.length
    · rw [drop_of_lt hlt] at hrest
      obtain ⟨rfl, rfl⟩ := List.cons.inj hrest
      rw [bare_chainFrom_cons p read lhs _ ho, Category.walkOn, dif_pos hlt, ho]
      exact (h s.val.forward hn).bind fun rhs s' hread hn' => .within_bind fun joined =>
        ih rhs _ joined hread _ hn' rfl
    · rw [drop_of_not_lt hlt] at hrest
      cases hrest

private theorem Retraces.chain {c d : Category} {p : Precedence} (hc : c.links = some (p, d))
    (h : Retraces ts n (d.walk ts) read) : Retraces ts n (c.walk ts) (Grammar.chain p read) := by
  intro s hn
  rw [bare_chain, Category.walk_of_links hc]
  exact (h s hn).bind fun lhs s' _ hn' => h.walkOn p lhs _ s' hn' rfl

private theorem Retraces.sum (h : Retraces ts n (Category.unary.walk ts) read) :
    Retraces ts n (Category.sum.walk ts) (Grammar.sum read) :=
  .chain Category.links_sum (.chain Category.links_product (.chain Category.links_power h))

/-! ### One level down -/

def Deeper (ts : List Token) (n : Nat) : Option Reader → Prop
  | none => n = nestingLimit
  | some read => n < nestingLimit ∧ Retraces ts (n + 1) (Category.unary.walk ts) read

section
variable {deeper : Option Reader}

private theorem Deeper.nested (h : Deeper ts s.nesting deeper) (pos : Nat) {enclosed : Reader → Reader}
    {inner : (s' : Cursor) → s'.taken = s.taken → Walk ts s'.taken}
    (hinner : ∀ read, Retraces ts (s.nesting + 1) (Category.unary.walk ts) read →
      Ends (s.nesting + 1) (bare (enclosed read (ts.drop s.taken))) (inner s.down rfl)) :
    Ends s.nesting (bare (descend deeper pos enclosed (ts.drop s.taken))) (Walk.nested s pos inner) := by
  cases deeper with
  | none =>
    have hfull : ¬ s.nesting < nestingLimit := Nat.not_lt.mpr (Nat.le_of_eq (Eq.symm h))
    rw [Walk.nested, if_neg hfull]
    exact .failed _
  | some read => exact .nested h.1 pos (hinner read h.2)

private theorem Deeper.unary (h : Deeper ts s.nesting deeper) (pos : Nat) :
    Ends s.nesting (bare (descend deeper pos id (ts.drop s.taken)))
      (Walk.nested s pos fun s' _ => Category.unary.walk ts s') :=
  h.nested pos fun _ hread => hread s.down rfl

private theorem Deeper.closed (h : Deeper ts s.nesting deeper) (pos : Nat) :
    Ends s.nesting (bare (descend deeper pos closedSum (ts.drop s.taken)))
      (Walk.nested s pos fun s' _ => Walk.closed (Category.sum.walk ts s')) := by
  refine h.nested pos fun read hread => ?_
  rw [bare_closedSum]
  exact (hread.sum s.down rfl).closed

private theorem bare_operandWith_descend_minus (deeper : Option Reader) (pos : Nat) (ts : List Token) :
    bare (operandWith deeper (⟨.minus, pos⟩ :: ts)) = (bare (descend deeper pos id ts)).bind fun x =>
      (x.1.negate.within pos).bind fun m => .ok (m, x.2) := by
  cases deeper with
  | none => rfl
  | some read => exact bare_operandWith_minus read pos ts

private theorem bare_operandWith_descend_plus (deeper : Option Reader) (pos : Nat) (ts : List Token) :
    bare (operandWith deeper (⟨.plus, pos⟩ :: ts)) = bare (descend deeper pos id ts) := by
  cases deeper with
  | none => rfl
  | some read => exact bare_operandWith_plus read pos ts

private theorem bare_operandWith_descend_openParen (deeper : Option Reader) (pos : Nat)
    (ts : List Token) :
    bare (operandWith deeper (⟨.openParen, pos⟩ :: ts)) = bare (descend deeper pos closedSum ts) := by
  cases deeper with
  | none => rfl
  | some read => exact bare_operandWith_openParen read pos ts

private theorem bare_operandWith_descend_call (deeper : Option Reader) (pos opened : Nat)
    (f : Elementary) (ts : List Token) :
    bare (operandWith deeper (⟨.function f, pos⟩ :: ⟨.openParen, opened⟩ :: ts)) =
      (bare (descend deeper pos closedSum ts)).bind fun x =>
        ((x.1.call f).within pos).bind fun m => .ok (m, x.2) := by
  cases deeper with
  | none => rfl
  | some read => exact bare_operandWith_call read pos opened f ts

/-! ### Operands -/

def unsigned (read : Reader) : Reader
  | ⟨.minus, pos⟩ :: _ => .error (.unexpectedToken ⟨.minus, pos⟩)
  | ⟨.plus, pos⟩ :: _ => .error (.unexpectedToken ⟨.plus, pos⟩)
  | ts => read ts

private theorem Retraces.primary (h : Deeper ts n deeper) :
    Retraces ts n (Category.primary.walk ts) (unsigned (operandWith deeper)) := by
  intro s hn
  subst hn
  rw [Category.walk]
  by_cases hlt : s.taken < ts.length
  · rw [dif_pos hlt, drop_of_lt hlt]
    generalize ts[s.taken] = t
    obtain ⟨lexeme, pos⟩ := t
    cases lexeme with
    | number v => exact .found _ ⟨s.forward, _⟩ rfl
    | «variable» => exact .found _ ⟨s.forward, _⟩ rfl
    | constant c => exact .found _ ⟨s.forward, _⟩ rfl
    | openParen =>
      change Ends s.nesting (bare (operandWith deeper _)) _
      rw [bare_operandWith_descend_openParen]
      exact (h.closed (s := s.forward) pos).since _
    | function f =>
      by_cases hlt : s.forward.taken < ts.length
      · simp only [List.getElem?_eq_getElem hlt]
        rw [drop_of_lt hlt]
        generalize ts[s.forward.taken] = second
        obtain ⟨lexeme, opened⟩ := second
        by_cases ho : lexeme = .openParen
        · subst ho
          change Ends s.nesting (bare (operandWith deeper _)) _
          rw [bare_operandWith_descend_call]
          have harg := (h.closed (s := s.forward.forward) pos).since (Nat.le_add_right s.taken 2)
          exact harg.bind fun arg s' _ hn => .within_bind fun called => .found called s' hn
        · cases lexeme <;> first | exact absurd rfl ho | exact .failed _
      · simp only [List.getElem?_eq_none (Nat.le_of_not_lt hlt)]
        rw [drop_of_not_lt hlt]
        exact .failed _
    | minus => exact .failed _
    | plus => exact .failed _
    | star => exact .failed _
    | slash => exact .failed _
    | caret => exact .failed _
    | closeParen => exact .failed _
  · rw [dif_neg hlt, drop_of_not_lt hlt]
    exact .failed _

private theorem Retraces.unary (h : Deeper ts n deeper) :
    Retraces ts n (Category.unary.walk ts) (operandWith deeper) := by
  intro s hn
  subst hn
  have hprimary := Retraces.primary h s rfl
  rw [Category.walk]
  by_cases hlt : s.taken < ts.length
  · rw [drop_of_lt hlt] at hprimary ⊢
    rw [dif_pos hlt]
    generalize ts[s.taken] = t at hprimary
    obtain ⟨lexeme, pos⟩ := t
    cases lexeme with
    | minus =>
      rw [bare_operandWith_descend_minus]
      have hinner := (h.unary (s := s.forward) pos).since (Nat.le_succ s.taken)
      exact hinner.bind fun inner s' _ hn => .within_bind fun negated => .found negated s' hn
    | plus =>
      rw [bare_operandWith_descend_plus]
      exact (h.unary (s := s.forward) pos).since _
    -- without a sign in front, both readers of an operand are the same
    | _ => exact hprimary
  · rw [drop_of_not_lt hlt] at hprimary ⊢
    rw [dif_neg hlt]
    exact hprimary

end

/-! ### Every level -/

def Category.strictReader (c : Category) (levels : Nat) : Reader :=
  match c with
  | .primary => unsigned (operand levels)
  | c => c.reader levels

private theorem deeper_operand (ts : List Token) (levels : Nat) (h : n + levels = nestingLimit) :
    ∃ deeper, operand levels = operandWith deeper ∧ Deeper ts n deeper := by
  -- where one level fewer is left, one more is open
  induction levels generalizing n with
  | zero => exact ⟨none, rfl, h⟩
  | succ levels ih =>
    obtain ⟨deeper, heq, hdeeper⟩ := ih (n := n + 1) (by omega)
    refine ⟨some (operand levels), rfl, by omega, ?_⟩
    rw [heq]
    exact .unary hdeeper

/-- With `n` levels open, a walk retraces the reader for the levels that are left. -/
theorem Category.walk_retraces (c : Category) (ts : List Token) {levels : Nat} (h : n + levels = nestingLimit) :
    Retraces ts n (c.walk ts) (c.strictReader levels) := by
  obtain ⟨deeper, heq, hdeeper⟩ := deeper_operand ts levels h
  have hunary : Retraces ts n (unary.walk ts) (operand levels) := heq ▸ .unary hdeeper
  cases c with
  | sum => exact hunary.sum
  | product => exact .chain links_product (.chain links_power hunary)
  | power => exact .chain links_power hunary
  | unary => exact hunary
  | primary =>
    change Retraces ts n _ (unsigned (operand levels))
    rw [heq]
    exact .primary hdeeper

private theorem Category.plain_walk (c : Category) (ts : List Token) {levels : Nat}
    (h : s.nesting + levels = nestingLimit) :
    (c.walk ts s).plain = (bare (c.strictReader levels (ts.drop s.taken))).map fun x =>
      (x.1, ⟨ts.length - x.2.length, s.nesting⟩) := by
  have hends := c.walk_retraces ts h s rfl
  generalize bare (c.strictReader levels (ts.drop s.taken)) = r at hends
  generalize c.walk ts s = w at hends
  cases hends with
  | failed e => rfl
  | found m s' hn =>
    have htaken : ts.length - (ts.drop s'.val.taken).length = s'.val.taken := by
      have := s'.property
      rw [List.length_drop]
      omega
    simp only [Walk.plain, Except.map, htaken, ← hn]

/-! ### What a walk has read -/

private theorem bare_of_unsigned {rest : List Token} (h : bare (unsigned read ts) = .ok (m, rest)) :
    bare (read ts) = .ok (m, rest) := by
  unfold unsigned at h
  split at h
  · cases h
  · cases h
  · exact h

private theorem Category.bare_of_strictReader {c : Category} {levels : Nat} {rest : List Token}
    (h : bare (c.strictReader levels ts) = .ok (m, rest)) : bare (c.reader levels ts) = .ok (m, rest) := by
  cases c with
  | primary => exact bare_of_unsigned h
  | _ => exact h

/-- What a reader takes is a phrase, and its tree is measured. -/
theorem Category.phrase_of_reader {c : Category} {levels : Nat} {rest : List Token}
    (h : bare (c.reader levels ts) = .ok (m, rest)) :
    ∃ phrase, ts = phrase ++ rest ∧ phrase ≠ [] ∧ Balanced phrase ∧ m.depth = m.tree.depth ∧
      m.depth ≤ nestingLimit := by
  have hunary := sound_operand levels
  have hsound : ∃ d, Sound d levels (c.reader levels) := by
    cases c with
    | sum => exact ⟨.sum, hunary.sum⟩
    | product => exact ⟨.product, .chain links_product (.chain links_power hunary)⟩
    | power => exact ⟨.power, .chain links_power hunary⟩
    | unary => exact ⟨.unary, hunary⟩
    | primary => exact ⟨.unary, hunary⟩
  obtain ⟨d, hsound⟩ := hsound
  obtain ⟨phrase, t, n, rfl, hderives, -, rfl, hdepth⟩ := hsound ts m rest h
  exact ⟨phrase, rfl, hderives.ne_nil, hderives.balanced, rfl, hdepth⟩

/-- A walk that finds a phrase leaves as many levels open as there were, and has taken at least one token. The
parentheses of the tokens that it has taken match, and the depth that it tells is that of the tree. The reader
of its category finds the same. -/
theorem Category.walk_restores (ts : List Token) (c : Category) {s s' : Cursor} {m : Measured}
    (hs : s.nesting ≤ 256) (h : (c.walk ts s).plain = .ok (m, s')) :
    s'.nesting = s.nesting ∧
    s.taken < s'.taken ∧ s'.taken ≤ ts.length ∧
    ts.extract s.taken s'.taken ≠ [] ∧ Balanced (ts.extract s.taken s'.taken) ∧
    m.depth = m.tree.depth ∧ m.depth ≤ 256 ∧
    bare (c.reader (256 - s.nesting) (ts.drop s.taken)) = .ok (m, ts.drop s'.taken) := by
  have hlevels : s.nesting + (256 - s.nesting) = nestingLimit := Nat.add_sub_cancel' hs
  rw [c.plain_walk ts hlevels] at h
  cases hstrict : bare (c.strictReader (256 - s.nesting) (ts.drop s.taken)) with
  | error e =>
    rw [hstrict] at h
    cases h
  | ok x =>
    obtain ⟨m, rest⟩ := x
    rw [hstrict] at h
    cases h
    have hread := bare_of_strictReader hstrict
    obtain ⟨phrase, heq, hne, hbalanced, hmeasured, hdepth⟩ := phrase_of_reader hread
    -- the cursor is where the reader stopped, so the tokens that were taken are the phrase
    have hlength := congrArg List.length heq
    rw [List.length_drop, List.length_append] at hlength
    have hpos := List.length_pos_iff.mpr hne
    have htaken : ts.length - rest.length = s.taken + phrase.length := by omega
    have hslice : ts.extract s.taken (ts.length - rest.length) = phrase := by
      rw [List.extract_eq_take_drop, heq]
      exact List.take_left' (by omega)
    have hrest : ts.drop (ts.length - rest.length) = rest := by
      rw [htaken, ← List.drop_drop, heq]
      exact List.drop_left
    dsimp only
    rw [hslice, hrest]
    exact ⟨rfl, by omega, Nat.sub_le .., hne, hbalanced, hmeasured, hdepth, hread⟩

/-- The factors of `1 + 2 * -(x) - 3`, where all but two levels are open before. -/
theorem Category.walk_restores_at_limit :
    let ts : List Token := [⟨.number 1.0, 0⟩, ⟨.plus, 2⟩, ⟨.number 2.0, 4⟩, ⟨.star, 6⟩, ⟨.minus, 8⟩,
      ⟨.openParen, 9⟩, ⟨.variable, 10⟩, ⟨.closeParen, 11⟩, ⟨.minus, 13⟩, ⟨.number 3.0, 15⟩]
    let s : Cursor := ⟨2, 254⟩
    let s' : Cursor := ⟨8, 254⟩
    let m : Measured := ⟨.binary .mul (.number 2.0) (.negate .variable), 3⟩
    s.nesting ≤ 256 ∧ (product.walk ts s).plain = .ok (m, s') ∧ s'.nesting = s.nesting ∧ s.taken < s'.taken ∧
      Balanced (ts.extract s.taken s'.taken) ∧ m.depth = m.tree.depth := by
  intro ts s s' m
  have hs : s.nesting ≤ 256 := by decide
  have hfactors : Derives .product (ts.extract 2 8) m.tree 2 :=
    .join rfl (.operand rfl (.operand rfl (.unsigned (.literal 2.0 4)))) (o := ⟨.star, 6⟩) rfl
      (.operand rfl (.negate 8 (.unsigned (.group 9 11 (.operand rfl (.operand rfl (.operand rfl
        (.unsigned (.unknown 10)))))))))
  have hstops : product.Stops (ts.drop 8) := by
    simp [ts, Stops, multiplicative, exponential]
  have hread := (hfactors.answered_of_stops 2 hstops).within (Nat.le_refl 2) (by decide)
  have hwalk : (product.walk ts s).plain = .ok (m, s') := by
    rw [product.plain_walk ts (show s.nesting + 2 = nestingLimit from rfl)]
    exact congrArg (Except.map _) hread
  obtain ⟨hn, hlt, -, -, hbalanced, hmeasured, -⟩ := walk_restores ts product hs hwalk
  exact ⟨hs, hwalk, hn, hlt, hbalanced, hmeasured⟩

end FormulaRoots.Grammar

namespace FormulaRoots
open Grammar

/-- The tree of a token list is found by a walk over a sum that begins at the first token with no level open. No
token may be left in front of the cursor. -/
theorem Tree.ofTokens_of_walk {ts : List Token} (hne : ts ≠ []) (hp : checkParens [] ts = .ok ()) :
    ofTokens ts = (Category.sum.walk ts ⟨0, 0⟩).plain.bind fun x =>
      match ts[x.2.taken]? with
      | none => .ok x.1.tree
      | some t => .error (.unexpectedToken t) := by
  rw [ofTokens_of_checkParens hne hp, Category.sum.plain_walk ts (Nat.zero_add nestingLimit)]
  change (bare (Category.sum.reader nestingLimit ts)).bind _ =
    ((bare (Category.sum.reader nestingLimit ts)).map _).bind _
  cases hread : bare (Category.sum.reader nestingLimit ts) with
  | error e => rfl
  | ok x =>
    obtain ⟨m, rest⟩ := x
    obtain ⟨phrase, rfl, -⟩ := Category.phrase_of_reader hread
    simp only [Except.map, Except.bind, List.length_append, Nat.add_sub_cancel]
    rw [List.getElem?_append_right (Nat.le_refl _), Nat.sub_self]
    cases rest with
    | nil => rfl
    | cons t rest => rfl

end FormulaRoots
