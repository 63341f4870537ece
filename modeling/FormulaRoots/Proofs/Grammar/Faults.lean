import FormulaRoots.Proofs.Grammar.Acceptance
import FormulaRoots.Proofs.Grammar.Parentheses

/-! Where reading breaks off. What stands before a fault can be continued to a phrase, and whatever stands
behind it, reading breaks off in the same way. -/
namespace FormulaRoots.Grammar

/-! ### Beginnings of phrases -/

def Category.Begins (c : Category) (ts : List Token) : Prop :=
  ∃ more t n, Derives c (ts ++ more) t n

namespace Category.Begins
variable {c d : Category} {p : Precedence} {ts us : List Token}

private theorem of_append (h : c.Begins (ts ++ us)) : c.Begins ts := by
  obtain ⟨more, t, n, hd⟩ := h
  rw [List.append_assoc] at hd
  exact ⟨us ++ more, t, n, hd⟩

theorem of_derives {t : Tree} {n : Nat} (h : Derives c ts t n) : c.Begins ts :=
  ⟨[], t, n, by rwa [List.append_nil]⟩

private theorem operand (hc : c.links = some (p, d)) (h : d.Begins us) : c.Begins us := by
  obtain ⟨more, t, n, hd⟩ := h
  exact ⟨more, t, n, .operand hc hd⟩

private theorem join {done : List Token} {l : Tree} {m : Nat} {o : Token} {op : Operator}
    (hc : c.links = some (p, d)) (hl : Derives c done l m) (ho : p o.lexeme = some op) (h : d.Begins us) :
    c.Begins (done ++ [o] ++ us) := by
  obtain ⟨more, t, n, hd⟩ := h
  exact ⟨more, _, _, by simpa using Derives.join hc hl ho hd⟩

private theorem minus (pos : Nat) (h : unary.Begins us) : unary.Begins (⟨.minus, pos⟩ :: us) := by
  obtain ⟨more, t, n, hd⟩ := h
  exact ⟨more, _, _, .negate pos hd⟩

private theorem plus (pos : Nat) (h : unary.Begins us) : unary.Begins (⟨.plus, pos⟩ :: us) := by
  obtain ⟨more, t, n, hd⟩ := h
  exact ⟨more, _, _, .plus pos hd⟩

private theorem group (pos : Nat) (h : sum.Begins us) : unary.Begins (⟨.openParen, pos⟩ :: us) := by
  obtain ⟨more, t, n, hd⟩ := h
  exact ⟨more ++ [⟨.closeParen, 0⟩], _, _, by simpa using Derives.unsigned (.group pos 0 hd)⟩

private theorem call (f : Elementary) (pos opened : Nat) (h : sum.Begins us) :
    unary.Begins (⟨.function f, pos⟩ :: ⟨.openParen, opened⟩ :: us) := by
  obtain ⟨more, t, n, hd⟩ := h
  exact ⟨more ++ [⟨.closeParen, 0⟩], _, _, by simpa using Derives.unsigned (.call f pos opened 0 hd)⟩

private theorem unary_nil : unary.Begins [] :=
  ⟨[⟨.variable, 0⟩], _, _, .unsigned (.unknown 0)⟩

private theorem sum_nil : sum.Begins [] :=
  operand rfl (operand rfl (operand rfl unary_nil))

end Category.Begins

/-! ### Unfinished tokens -/

def operators : List Lexeme := [.plus, .minus, .star, .slash, .caret]

/-- Something has to follow: the last token is an operator, or a parenthesis stays open. -/
def Unfinished (ts : List Token) : Prop :=
  (∃ before o, ts = before ++ [o] ∧ o.lexeme ∈ operators) ∨
  ∃ before pos after, ts = before ++ ⟨.openParen, pos⟩ :: after ∧ NeverBelow 0 after

theorem unfinished_operator (before : List Token) {o : Token} (ho : o.lexeme ∈ operators) :
    Unfinished (before ++ [o]) :=
  .inl ⟨before, o, rfl, ho⟩

private theorem unfinished_open (before : List Token) (pos : Nat) {after : List Token}
    (h : NeverBelow 0 after) :
    Unfinished (before ++ [⟨.openParen, pos⟩] ++ after) :=
  .inr ⟨before, pos, after, by simp, h⟩

private theorem Category.mem_operators {c d : Category} {p : Precedence} {x : Lexeme} {op : Operator}
    (hc : c.links = some (p, d)) (ho : p x = some op) : x ∈ operators := by
  rcases links_lexeme hc ho with rfl | rfl | rfl | rfl | rfl <;> decide

theorem Derives.balanced {c : Category} {ts : List Token} {t : Tree} {n : Nat} (h : Derives c ts t n) :
    Balanced ts := by
  have hscan := h.checkParens_append [] []
  rw [List.append_nil] at hscan
  exact checkParens_nil_eq_ok_iff.mp hscan

/-! ### Faults -/

/-- What an error says about the tokens in which a phrase of the category was looked for. -/
inductive Fault (c : Category) (read : Reader) : List Token → FormulaError → Prop
  /-- A token cannot follow those before it, whatever stands behind it. -/
  | token {before : List Token} {t : Token} (after : List Token) (hbegins : c.Begins before)
      (hagain : ∀ more, bare (read (before ++ t :: more)) = .error (.unexpectedToken t)) :
      Fault c read (before ++ t :: after) (.unexpectedToken t)
  /-- A function can follow the tokens before it, but has no argument. -/
  | call {before after : List Token} {f : Elementary} {pos : Nat}
      (hbegins : c.Begins (before ++ [⟨.function f, pos⟩]))
      (hnext : ∀ t ∈ after.head?, t.lexeme ≠ .openParen) :
      Fault c read (before ++ ⟨.function f, pos⟩ :: after) (.missingCallParen f pos)
  /-- Something has to follow the last token, or else the one before all these tokens. -/
  | ended {ts : List Token} (hbegins : c.Begins ts)
      (hend : ∀ outer, Unfinished outer → Unfinished (outer ++ ts)) : Fault c read ts .unexpectedEnd
  | deep (ts : List Token) (pos : Nat) : Fault c read ts (.nestingTooDeep pos)

private theorem Fault.behind {c d : Category} {read inner : Reader} {front ts : List Token}
    {e : FormulaError}
    (h : Fault d inner ts e) (hbegins : ∀ us, d.Begins us → c.Begins (front ++ us))
    (hread : ∀ us e, bare (inner us) = .error e → bare (read (front ++ us)) = .error e)
    (hend : ∀ outer, Unfinished outer → Unfinished (outer ++ front)) : Fault c read (front ++ ts) e := by
  cases h with
  | @token before t after hbefore hagain =>
    rw [← List.append_assoc]
    refine .token after (hbegins before hbefore) fun more => ?_
    rw [List.append_assoc]
    exact hread _ _ (hagain more)
  | @call before after f pos hbefore hnext =>
    rw [← List.append_assoc]
    refine .call ?_ hnext
    rw [List.append_assoc]
    exact hbegins _ hbefore
  | ended hts hlast =>
    refine .ended (hbegins ts hts) fun outer houter => ?_
    rw [← List.append_assoc]
    exact hlast _ (hend outer houter)
  | deep ts pos => exact .deep _ pos

/-! ### Readers -/

private theorem Category.Stops.of_head? {c : Category} {rest rest' : List Token} (h : c.Stops rest)
    (hhead : rest'.head? = rest.head?) : c.Stops rest' := by
  cases c with
  | unary => trivial
  | primary => trivial
  | _ => simpa only [Stops, hhead] using h

private theorem Measured.within_error {m : Measured} {pos : Nat} {e : FormulaError}
    (h : m.within pos = .error e) :
    e = .nestingTooDeep pos := by
  unfold within at h
  split at h
  · cases h
  · cases h
    rfl

private theorem Measured.within_bind_error {m : Measured} {pos : Nat} {rest : List Token}
    {e : FormulaError}
    (h : ((m.within pos).bind fun m => .ok (m, rest)) = .error e) : e = .nestingTooDeep pos := by
  rcases bind_eq_error_iff.mp h with hdeep | ⟨m', -, hok⟩
  · exact within_error hdeep
  · cases hok

/-- What a reader of the category does: it takes a phrase, stops where no phrase goes on, and if it fails,
there is a fault. -/
structure Category.Settled (c : Category) (levels : Nat) : Prop where
  sound : Sound c levels (c.reader levels)
  stops : ∀ ts m rest, bare (c.reader levels ts) = .ok (m, rest) → c.Stops rest
  fault : ∀ ts e, bare (c.reader levels ts) = .error e → Fault c (c.reader levels) ts e

section
variable {c d : Category} {p : Precedence} {levels n : Nat} {ts rest : List Token} {m : Measured}
  {e : FormulaError}

/-- A phrase is read again in front of any tokens with the same first one. -/
theorem Category.Settled.read_again (h : c.Settled levels)
    (hread : bare (c.reader levels ts) = .ok (m, rest)) :
    ∃ phrase t n, ts = phrase ++ rest ∧ Derives c phrase t n ∧
      ∀ rest', rest'.head? = rest.head? → bare (c.reader levels (phrase ++ rest')) = .ok (m, rest') := by
  obtain ⟨phrase, t, n, hts, hphrase, hn, rfl, ht⟩ := h.sound ts m rest hread
  refine ⟨phrase, t, n, hts, hphrase, fun rest' hhead => ?_⟩
  exact (hphrase.answered_of_stops levels ((h.stops ts _ rest hread).of_head? hhead)).within hn ht

private theorem Category.reader_append (hc : c.links = some (p, d)) {done : List Token} {t : Tree}
    (hdone : Derives c done t n) (hn : n ≤ levels) (ht : t.depth ≤ nestingLimit) (hs : d.Stops rest) :
    bare (c.reader levels (done ++ rest)) = bare (chainFrom p (d.reader levels) t.measured rest) := by
  have hanswer := hdone.answered levels rest fun p' d' hc' => by
    rw [hc] at hc'
    cases hc'
    exact hs
  rw [hanswer.within hn ht, Category.goOn_of_links hc]

private theorem Category.Settled.stops_chainFrom (hc : c.links = some (p, d)) (h : d.Settled levels)
    (lhs : Measured) (ts : List Token) (hs : d.Stops ts)
    (hread : bare (chainFrom p (d.reader levels) lhs ts) = .ok (m, rest)) : c.Stops rest := by
  induction lhs, ts using chain_induction p (d.reader levels) with
  | stop lhs ts hstop =>
    rw [bare_chainFrom_of_stop p _ lhs ts hstop] at hread
    cases hread
    exact (Category.Stops.links hc).mpr ⟨hs, hstop⟩
  | step lhs o op after ho ih =>
    rw [bare_chainFrom_cons p _ lhs after ho] at hread
    obtain ⟨⟨rhs, left⟩, hoperand, hread⟩ := bind_eq_ok_iff.mp hread
    obtain ⟨joined, -, hread⟩ := bind_eq_ok_iff.mp hread
    exact ih rhs left joined hoperand (h.stops after rhs left hoperand) hread

/-- A chain breaks off in one of its operands, or because it is too deep. -/
theorem Category.Settled.fault_chainFrom (hc : c.links = some (p, d)) (h : d.Settled levels)
    (done : List Token) (t : Tree) (hdone : Derives c done t n) (hn : n ≤ levels)
    (ht : t.depth ≤ nestingLimit) (hs : d.Stops ts)
    (hread : bare (chainFrom p (d.reader levels) t.measured ts) = .error e) :
    Fault c (c.reader levels) (done ++ ts) e := by
  generalize hlhs : t.measured = lhs at hread
  induction lhs, ts using chain_induction p (d.reader levels) generalizing done t n with
  | stop lhs ts hstop =>
    rw [bare_chainFrom_of_stop p _ lhs ts hstop] at hread
    cases hread
  | step lhs o op after ho ih =>
    subst hlhs
    rw [bare_chainFrom_cons p _ _ after ho] at hread
    rcases bind_eq_error_iff.mp hread with hoperand | ⟨⟨rhs, left⟩, hoperand, hread⟩
    · have hfault := h.fault after e hoperand
      rw [← List.singleton_append, ← List.append_assoc]
      refine hfault.behind (fun us hus => .join hc hdone ho hus) (fun us e' he' => ?_) fun outer _ => ?_
      · rw [List.append_assoc, List.singleton_append,
          Category.reader_append hc hdone hn ht (Category.stops_operator hc ho us),
          bare_chainFrom_cons p _ _ us ho, he']
        rfl
      · rw [← List.append_assoc]
        exact unfinished_operator _ (Category.mem_operators hc ho)
    · rcases bind_eq_error_iff.mp hread with hdeep | ⟨joined, hjoined, hread⟩
      · rw [Measured.within_error hdeep]
        exact .deep _ _
      · obtain ⟨operand, u, k, rfl, hu, hk, rfl, -⟩ := h.sound after rhs left hoperand
        obtain ⟨rfl, hdepth⟩ := within_ok hjoined
        have hlonger := ih _ left _ hoperand _ _ (.join hc hdone ho hu) (by omega) hdepth
          (h.stops _ _ left hoperand) rfl hread
        simpa only [List.append_assoc, List.cons_append] using hlonger

private theorem Category.Settled.chain (hc : c.links = some (p, d)) (h : d.Settled levels) :
    c.Settled levels := by
  refine ⟨?_, fun ts m rest hread => ?_, fun ts e hread => ?_⟩
  · rw [Category.reader_of_links hc]
    exact h.sound.chain hc
  · rw [Category.reader_of_links hc, bare_chain] at hread
    obtain ⟨⟨lhs, left⟩, hfirst, hread⟩ := bind_eq_ok_iff.mp hread
    exact h.stops_chainFrom hc lhs left (h.stops ts lhs left hfirst) hread
  · have hchain := hread
    rw [Category.reader_of_links hc, bare_chain] at hchain
    rcases bind_eq_error_iff.mp hchain with hfirst | ⟨⟨lhs, left⟩, hfirst, hrest⟩
    · change Fault c _ ([] ++ ts) e
      refine (h.fault ts e hfirst).behind (fun us hus => .operand hc hus) (fun us e' he' => ?_)
        fun outer houter => by rwa [List.append_nil]
      rw [List.nil_append, Category.reader_of_links hc, bare_chain, he']
      rfl
    · obtain ⟨phrase, t, n, rfl, hphrase, hn, rfl, ht⟩ := h.sound ts lhs left hfirst
      exact h.fault_chainFrom hc phrase t (.operand hc hphrase) hn ht (h.stops _ _ left hfirst) hrest

theorem Category.Settled.sum (h : Category.unary.Settled levels) : Category.sum.Settled levels :=
  .chain links_sum (.chain links_product (.chain links_power h))

private theorem Fault.enclosed {read : Reader} {front : List Token} {pos : Nat}
    (h : Category.sum.Settled levels)
    (hbegins : ∀ us, Category.sum.Begins us → Category.unary.Begins (front ++ [⟨.openParen, pos⟩] ++ us))
    (hread : ∀ us e, bare (closedSum (Grammar.operand levels) us) = .error e →
      bare (read (front ++ [⟨.openParen, pos⟩] ++ us)) = .error e)
    (he : bare (closedSum (Grammar.operand levels) ts) = .error e) :
    Fault .unary read (front ++ [⟨.openParen, pos⟩] ++ ts) e := by
  have hclosed := he
  rw [bare_closedSum] at hclosed
  rcases bind_eq_error_iff.mp hclosed with hsum | ⟨⟨m, rest⟩, hsum, hrest⟩
  · refine (h.fault ts e hsum).behind hbegins (fun us e' he' => ?_) fun outer _ => ?_
    · refine hread us e' ?_
      rw [bare_closedSum]
      exact bind_eq_error_iff.mpr (.inl he')
    · rw [← List.append_assoc, ← List.append_nil (outer ++ front ++ _)]
      exact unfinished_open _ pos (neverBelow_nil.mpr (Int.le_refl 0))
  · obtain ⟨phrase, t, n, rfl, hphrase, hagain⟩ := h.read_again hsum
    cases rest with
    | nil =>
      cases hrest
      rw [List.append_nil]
      refine .ended (hbegins phrase (.of_derives hphrase)) fun outer _ => ?_
      rw [← List.append_assoc, ← List.append_assoc]
      exact unfinished_open _ pos hphrase.balanced.1
    | cons last after =>
      have hlast : last.lexeme ≠ .closeParen := by
        intro heq
        rw [afterClosing, if_pos heq] at hrest
        cases hrest
      rw [afterClosing, if_neg hlast] at hrest
      cases hrest
      rw [← List.append_assoc]
      refine .token after (hbegins phrase (.of_derives hphrase)) fun more => ?_
      rw [List.append_assoc]
      refine hread _ _ ?_
      rw [bare_closedSum]
      refine bind_eq_error_iff.mpr (.inr ⟨_, hagain (last :: more) rfl, ?_⟩)
      rw [afterClosing, if_neg hlast]

private theorem Fault.signed {read : Reader} {sign : Token} (h : Category.unary.Settled levels)
    (hsign : sign.lexeme ∈ operators)
    (hbegins : ∀ us, Category.unary.Begins us → Category.unary.Begins (sign :: us))
    (hread : ∀ us e, bare (Grammar.operand levels us) = .error e → bare (read (sign :: us)) = .error e)
    (he : bare (Grammar.operand levels ts) = .error e) : Fault .unary read (sign :: ts) e := by
  change Fault .unary read ([sign] ++ ts) e
  exact (h.fault ts e he).behind hbegins hread fun outer _ => unfinished_operator outer hsign

private theorem Fault.no_argument (read : Reader) (f : Elementary) (pos : Nat)
    (hnext : ∀ t ∈ ts.head?, t.lexeme ≠ .openParen) :
    Fault .unary read (⟨.function f, pos⟩ :: ts) (.missingCallParen f pos) := by
  have hname : Category.unary.Begins ([⟨.function f, pos⟩] ++ [⟨.openParen, 0⟩]) := .call f pos 0 .sum_nil
  change Fault .unary read ([] ++ ⟨.function f, pos⟩ :: ts) _
  exact .call hname.of_append hnext

private theorem fault_operandWith {deeper : Option Reader}
    (h : ∀ read, deeper = some read → ∃ inner, read = Grammar.operand inner ∧ Category.unary.Settled inner)
    (he : bare (operandWith deeper ts) = .error e) : Fault .unary (operandWith deeper) ts e := by
  cases ts with
  | nil =>
    cases he
    exact .ended .unary_nil fun outer houter => by rwa [List.append_nil]
  | cons first ts =>
    obtain ⟨lexeme, pos⟩ := first
    cases lexeme with
    | number v => cases he
    | «variable» => cases he
    | constant k => cases he
    | minus =>
      cases deeper with
      | none =>
        cases he
        exact .deep _ pos
      | some read =>
        obtain ⟨inner, rfl, hinner⟩ := h read rfl
        rw [bare_operandWith_minus] at he
        rcases bind_eq_error_iff.mp he with hread | ⟨x, -, hdeep⟩
        · refine .signed hinner (by simp [operators]) (fun us hus => .minus pos hus) (fun us e' he' => ?_) hread
          rw [bare_operandWith_minus]
          exact bind_eq_error_iff.mpr (.inl he')
        · rw [Measured.within_bind_error hdeep]
          exact .deep _ pos
    | plus =>
      cases deeper with
      | none =>
        cases he
        exact .deep _ pos
      | some read =>
        obtain ⟨inner, rfl, hinner⟩ := h read rfl
        rw [bare_operandWith_plus] at he
        refine .signed hinner (by simp [operators]) (fun us hus => .plus pos hus) (fun us e' he' => ?_) he
        rwa [bare_operandWith_plus]
    | openParen =>
      cases deeper with
      | none =>
        cases he
        exact .deep _ pos
      | some read =>
        obtain ⟨inner, rfl, hinner⟩ := h read rfl
        rw [bare_operandWith_openParen] at he
        change Fault .unary _ ([] ++ [⟨.openParen, pos⟩] ++ ts) e
        refine .enclosed hinner.sum (fun us hus => .group pos hus) (fun us e' he' => ?_) he
        rwa [List.nil_append, List.singleton_append, bare_operandWith_openParen]
    | function f =>
      cases ts with
      | nil =>
        cases he
        exact .no_argument _ f pos nofun
      | cons second ts =>
        obtain ⟨lexeme, opened⟩ := second
        by_cases ho : lexeme = .openParen
        · subst ho
          cases deeper with
          | none =>
            cases he
            exact .deep _ pos
          | some read =>
            obtain ⟨inner, rfl, hinner⟩ := h read rfl
            rw [bare_operandWith_call] at he
            rcases bind_eq_error_iff.mp he with hread | ⟨x, -, hdeep⟩
            · change Fault .unary _ ([⟨.function f, pos⟩] ++ [⟨.openParen, opened⟩] ++ ts) e
              refine .enclosed hinner.sum (fun us hus => .call f pos opened hus) (fun us e' he' => ?_) hread
              change bare (operandWith _ (⟨.function f, pos⟩ :: ⟨.openParen, opened⟩ :: us)) = _
              rw [bare_operandWith_call]
              exact bind_eq_error_iff.mpr (.inl he')
            · rw [Measured.within_bind_error hdeep]
              exact .deep _ pos
        · have hmissing : e = .missingCallParen f pos := by
            cases lexeme with
            | openParen => exact absurd rfl ho
            | _ =>
              cases he
              rfl
          subst hmissing
          exact .no_argument _ f pos (by simpa using ho)
    | _ =>
      cases he
      exact .token ts .unary_nil fun more => rfl

theorem settled_operand (levels : Nat) : Category.unary.Settled levels := by
  induction levels with
  | zero => exact ⟨sound_operand 0, fun _ _ _ _ => trivial, fun ts e he => fault_operandWith nofun he⟩
  | succ levels ih =>
    refine ⟨sound_operand _, fun _ _ _ _ => trivial, fun ts e he => fault_operandWith (fun read h => ?_) he⟩
    cases h
    exact ⟨levels, rfl, ih⟩

end
end FormulaRoots.Grammar
