import FormulaRoots.Proofs.Grammar.Completeness

/-! Whatever is read is a phrase within both limits, and its tree is the one that is returned. -/
namespace FormulaRoots.Grammar

/-- What a reader takes from the front of a token list is a phrase of the category with the tree that
it returns, and the phrase is within both limits. -/
def Sound (c : Category) (levels : Nat) (read : Reader) : Prop :=
  ∀ ts m rest, bare (read ts) = .ok (m, rest) →
    ∃ phrase t n, ts = phrase ++ rest ∧ Derives c phrase t n ∧ n ≤ levels ∧
      m = t.measured ∧ t.depth ≤ nestingLimit

theorem within_ok {m m' : Measured} {pos : Nat} (h : m.within pos = .ok m') :
    m' = m ∧ m.depth ≤ nestingLimit := by
  by_cases hd : m.depth ≤ nestingLimit
  · rw [Measured.within_of_le hd] at h
    exact ⟨(Except.ok.inj h).symm, hd⟩
  · rw [Measured.within_of_lt (by omega)] at h
    cases h

private theorem Sound.chainFrom {c d : Category} {p : Precedence} {levels : Nat} {read : Reader}
    (hc : c.links = some (p, d)) (hs : Sound d levels read) (ts done : List Token) (t : Tree)
    (n : Nat) (hd : Derives c done t n) (hn : n ≤ levels) (ht : t.depth ≤ nestingLimit)
    {m : Measured} {rest : List Token}
    (h : bare (chainFrom p read t.measured ts) = .ok (m, rest)) :
    ∃ more u k, ts = more ++ rest ∧ Derives c (done ++ more) u k ∧ k ≤ levels ∧
      m = u.measured ∧ u.depth ≤ nestingLimit := by
  generalize hlhs : t.measured = lhs at h
  induction lhs, ts using chain_induction p read generalizing done t n with
  | stop lhs ts hstop =>
    rw [bare_chainFrom_of_stop p read _ ts hstop] at h
    cases h
    exact ⟨[], t, n, rfl, by rwa [List.append_nil], hn, hlhs.symm, ht⟩
  | step lhs o op after ho ih =>
    subst hlhs
    rw [bare_chainFrom_cons p read _ after ho] at h
    obtain ⟨⟨r, left⟩, hr, h⟩ := bind_eq_ok_iff.mp h
    obtain ⟨joined, hj, h⟩ := bind_eq_ok_iff.mp h
    obtain ⟨operand, u, k, rfl, hu, hk, rfl, -⟩ := hs after r left hr
    obtain ⟨rfl, hdepth⟩ := within_ok hj
    obtain ⟨more, v, k', rfl, hv, hk', rfl, hvd⟩ :=
      ih _ left _ hr _ _ _ (.join hc hd ho hu) (by omega) hdepth rfl h
    refine ⟨o :: (operand ++ more), v, k', by simp, ?_, hk', rfl, hvd⟩
    simpa only [List.append_assoc, List.cons_append] using hv

theorem Sound.chain {c d : Category} {p : Precedence} {levels : Nat} {read : Reader}
    (hc : c.links = some (p, d)) (hs : Sound d levels read) : Sound c levels (chain p read) := by
  intro ts m rest h
  rw [bare_chain] at h
  obtain ⟨⟨l, left⟩, hl, h⟩ := bind_eq_ok_iff.mp h
  obtain ⟨first, t, n, rfl, ht, hn, rfl, htd⟩ := hs ts l left hl
  obtain ⟨more, u, k, rfl, hu, hk, rfl, hud⟩ :=
    hs.chainFrom hc left first t n (.operand hc ht) hn htd h
  exact ⟨first ++ more, u, k, by rw [List.append_assoc], hu, hk, rfl, hud⟩

theorem Sound.sum {levels : Nat} {read : Reader} (h : Sound .unary levels read) :
    Sound .sum levels (Grammar.sum read) :=
  .chain Category.links_sum (.chain Category.links_product (.chain Category.links_power h))

private theorem Sound.closedSum {levels : Nat} {read : Reader} (h : Sound .unary levels read)
    {ts : List Token} {m : Measured} {rest : List Token}
    (hr : bare (closedSum read ts) = .ok (m, rest)) :
    ∃ phrase t n closed, ts = phrase ++ ⟨.closeParen, closed⟩ :: rest ∧ Derives .sum phrase t n ∧
      n ≤ levels ∧ m = t.measured ∧ t.depth ≤ nestingLimit := by
  rw [bare_closedSum] at hr
  obtain ⟨⟨inner, left⟩, hi, hr⟩ := bind_eq_ok_iff.mp hr
  obtain ⟨phrase, t, n, rfl, ht, hn, rfl, htd⟩ := h.sum ts inner left hi
  cases left with
  | nil => cases hr
  | cons last after =>
    obtain ⟨lexeme, closed⟩ := last
    by_cases hc : lexeme = .closeParen
    · subst hc
      cases hr
      exact ⟨phrase, t, n, closed, rfl, ht, hn, rfl, htd⟩
    · rw [afterClosing, if_neg hc] at hr
      cases hr

private theorem Sound.operandWith {levels : Nat} {deeper : Option Reader}
    (h : ∀ read, deeper = some read → ∃ inner, levels = inner + 1 ∧ Sound .unary inner read) :
    Sound .unary levels (operandWith deeper) := by
  have leaf (t : Tree) (ht : t.depth = 1) : t.depth ≤ nestingLimit := by
    rw [ht]
    decide
  intro ts m rest hr
  cases ts with
  | nil => cases hr
  | cons first ts =>
    obtain ⟨lexeme, pos⟩ := first
    cases lexeme with
    | number v =>
      cases hr
      exact ⟨[_], _, 0, rfl, .unsigned (.literal v pos), by omega, rfl, leaf _ rfl⟩
    | «variable» =>
      cases hr
      exact ⟨[_], _, 0, rfl, .unsigned (.unknown pos), by omega, rfl, leaf _ rfl⟩
    | constant k =>
      cases hr
      exact ⟨[_], _, 0, rfl, .unsigned (.constant k pos), by omega, rfl, leaf _ rfl⟩
    | minus =>
      cases deeper with
      | none => cases hr
      | some read =>
        obtain ⟨inner, rfl, hread⟩ := h read rfl
        rw [bare_operandWith_minus] at hr
        obtain ⟨⟨x, left⟩, hi, hr⟩ := bind_eq_ok_iff.mp hr
        obtain ⟨negated, hw, hr⟩ := bind_eq_ok_iff.mp hr
        obtain ⟨phrase, t, n, rfl, ht, hn, rfl, -⟩ := hread ts x left hi
        obtain ⟨rfl, hd⟩ := within_ok hw
        cases hr
        exact ⟨⟨.minus, pos⟩ :: phrase, _, _, rfl, .negate pos ht, by omega, rfl, hd⟩
    | plus =>
      cases deeper with
      | none => cases hr
      | some read =>
        obtain ⟨inner, rfl, hread⟩ := h read rfl
        rw [bare_operandWith_plus] at hr
        obtain ⟨phrase, t, n, rfl, ht, hn, rfl, htd⟩ := hread ts m rest hr
        exact ⟨⟨.plus, pos⟩ :: phrase, t, _, rfl, .plus pos ht, by omega, rfl, htd⟩
    | openParen =>
      cases deeper with
      | none => cases hr
      | some read =>
        obtain ⟨inner, rfl, hread⟩ := h read rfl
        rw [bare_operandWith_openParen] at hr
        obtain ⟨phrase, t, n, closed, rfl, ht, hn, rfl, htd⟩ := hread.closedSum hr
        exact ⟨_, t, _, by simp, .unsigned (.group pos closed ht), by omega, rfl, htd⟩
    | function f =>
      cases ts with
      | nil => cases hr
      | cons second ts =>
        obtain ⟨lexeme, opened⟩ := second
        by_cases ho : lexeme = .openParen
        · subst ho
          cases deeper with
          | none => cases hr
          | some read =>
            obtain ⟨inner, rfl, hread⟩ := h read rfl
            rw [bare_operandWith_call] at hr
            obtain ⟨⟨arg, left⟩, ha, hr⟩ := bind_eq_ok_iff.mp hr
            obtain ⟨called, hw, hr⟩ := bind_eq_ok_iff.mp hr
            obtain ⟨phrase, t, n, closed, rfl, ht, hn, rfl, -⟩ := hread.closedSum ha
            obtain ⟨rfl, hd⟩ := within_ok hw
            cases hr
            exact ⟨_, _, _, by simp, .unsigned (.call f pos opened closed ht), by omega, rfl, hd⟩
        · cases lexeme <;> first | exact absurd rfl ho | cases hr
    | star => cases hr
    | slash => cases hr
    | caret => cases hr
    | closeParen => cases hr

theorem sound_operand (levels : Nat) : Sound .unary levels (Grammar.operand levels) := by
  induction levels with
  | zero => exact .operandWith fun read h => by cases h
  | succ levels ih =>
    refine .operandWith fun read h => ⟨levels, rfl, ?_⟩
    cases h
    exact ih

end FormulaRoots.Grammar
