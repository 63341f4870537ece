import FormulaRoots.Proofs.Grammar.Reading

/-! Every phrase is read, with its tree, unless it exceeds one of the two limits. -/
namespace FormulaRoots

def Tree.measured (t : Tree) : Grammar.Measured := ⟨t, t.depth⟩

namespace Grammar

/-- What is still to be read for a category after `m`: the rest of a chain. -/
def Category.goOn (c : Category) (levels : Nat) (m : Measured) (rest : List Token) :
    Except FormulaError (Measured × List Token) :=
  match c.links with
  | some (p, d) => bare (chainFrom p (d.reader levels) m rest)
  | none => .ok (m, rest)

theorem Category.goOn_of_links {c d : Category} {p : Precedence} (hc : c.links = some (p, d))
    (levels : Nat) (m : Measured) (rest : List Token) :
    c.goOn levels m rest = bare (chainFrom p (d.reader levels) m rest) := by
  simp only [Category.goOn, hc]

private theorem Category.goOn_of_stops {c : Category} {rest : List Token} (hs : c.Stops rest)
    (levels : Nat) (m : Measured) : c.goOn levels m rest = .ok (m, rest) := by
  cases hc : c.links with
  | none => simp only [Category.goOn, hc]
  | some x =>
    obtain ⟨p, d⟩ := x
    rw [Category.goOn_of_links hc]
    exact bare_chainFrom_of_stop p _ m rest ((Category.Stops.links hc).mp hs).2

/-- A phrase with the tree `t` and `n` open levels is answered as `goOn` says if it is within both
limits, and otherwise refused for its nesting. -/
structure Answered (levels n : Nat) (t : Tree)
    (answer goOn : Except FormulaError (Measured × List Token)) : Prop where
  within : n ≤ levels → t.depth ≤ nestingLimit → answer = goOn
  beyond : levels < n ∨ nestingLimit < t.depth → ∃ pos, answer = .error (.nestingTooDeep pos)

private theorem Answered.leaf {levels : Nat} {t : Tree}
    {answer goOn : Except FormulaError (Measured × List Token)} (ht : t.depth = 1)
    (h : answer = goOn) : Answered levels 0 t answer goOn := by
  refine ⟨fun _ _ => h, ?_⟩
  rintro (hn | hd)
  · exact absurd hn (Nat.not_lt_zero _)
  · rw [ht] at hd
    exact absurd hd (by decide)

private theorem Answered.deeper {levels n : Nat} {t u : Tree} {rest : List Token}
    {answer : Except FormulaError (Measured × List Token)} (pos : Nat)
    (wrap : Measured → Measured) (hw : wrap t.measured = u.measured) (hu : t.depth ≤ u.depth)
    (h : Answered levels n t answer (.ok (t.measured, rest))) :
    Answered (levels + 1) (n + 1) u
      (answer.bind fun x => ((wrap x.1).within pos).bind fun m => .ok (m, x.2))
      (.ok (u.measured, rest)) := by
  constructor
  · intro hn hd
    rw [h.within (by omega) (by omega)]
    have hm : u.measured.depth ≤ nestingLimit := hd
    simp only [Except.bind, hw, Measured.within_of_le hm]
  · intro hl
    by_cases hi : levels < n ∨ nestingLimit < t.depth
    · obtain ⟨q, hq⟩ := h.beyond hi
      exact ⟨q, by rw [hq]; rfl⟩
    · have hm : nestingLimit < u.measured.depth := by
        change nestingLimit < u.depth
        omega
      rw [h.within (by omega) (by omega)]
      exact ⟨pos, by simp only [Except.bind, hw, Measured.within_of_lt hm]⟩

private theorem Answered.same {levels n : Nat} {t : Tree} {rest : List Token}
    {answer : Except FormulaError (Measured × List Token)}
    (h : Answered levels n t answer (.ok (t.measured, rest))) :
    Answered (levels + 1) (n + 1) t answer (.ok (t.measured, rest)) :=
  ⟨fun hn hd => h.within (by omega) hd, fun hl => h.beyond (by omega)⟩

private theorem Answered.no_level {n : Nat} {t : Tree} (pos : Nat)
    {goOn : Except FormulaError (Measured × List Token)} :
    Answered 0 (n + 1) t (.error (.nestingTooDeep pos)) goOn :=
  ⟨fun hn => absurd hn (by omega), fun _ => ⟨pos, rfl⟩⟩

private theorem Answered.closed {levels n : Nat} {t : Tree} {read : Reader} {ts : List Token}
    {closed : Nat} {rest : List Token}
    (h : Answered levels n t (bare (Grammar.sum read ts)) (.ok (t.measured, ⟨.closeParen, closed⟩ :: rest))) :
    Answered levels n t (bare (closedSum read ts)) (.ok (t.measured, rest)) := by
  rw [bare_closedSum]
  constructor
  · intro hn hd
    rw [h.within hn hd]
    rfl
  · intro hl
    obtain ⟨q, hq⟩ := h.beyond hl
    exact ⟨q, by rw [hq]; rfl⟩

private theorem Answered.chain {levels n : Nat} {t : Tree} {p : Precedence} {read : Reader}
    {ts rest : List Token} (h : Answered levels n t (bare (read ts)) (.ok (t.measured, rest))) :
    Answered levels n t (bare (chain p read ts)) (bare (chainFrom p read t.measured rest)) := by
  rw [bare_chain]
  constructor
  · intro hn hd
    rw [h.within hn hd]
    rfl
  · intro hl
    obtain ⟨q, hq⟩ := h.beyond hl
    exact ⟨q, by rw [hq]; rfl⟩

private theorem Answered.join {levels m n : Nat} {l r : Tree} {p : Precedence} {op : Operator}
    {o : Token} {read : Reader} {after rest : List Token}
    {answer : Except FormulaError (Measured × List Token)} (ho : p o.lexeme = some op)
    (hl : Answered levels m l answer (bare (chainFrom p read l.measured (o :: after))))
    (hr : Answered levels n r (bare (read after)) (.ok (r.measured, rest))) :
    Answered levels (max m n) (.binary op l r) answer
      (bare (chainFrom p read (Tree.binary op l r).measured rest)) := by
  rw [bare_chainFrom_cons p read l.measured after ho] at hl
  constructor
  · intro hn hd
    have hj : (Measured.join op l.measured r.measured).depth ≤ nestingLimit := hd
    simp only [Tree.depth] at hd
    rw [hl.within (by omega) (by omega), hr.within (by omega) (by omega)]
    simp only [Except.bind, Measured.within_of_le hj]
    rfl
  · intro hb
    simp only [Tree.depth] at hb
    by_cases hbl : levels < m ∨ nestingLimit < l.depth
    · exact hl.beyond hbl
    · rw [hl.within (by omega) (by omega)]
      by_cases hbr : levels < n ∨ nestingLimit < r.depth
      · obtain ⟨q, hq⟩ := hr.beyond hbr
        exact ⟨q, by rw [hq]; rfl⟩
      · have hj : nestingLimit < (Measured.join op l.measured r.measured).depth := by
          change nestingLimit < 1 + max l.depth r.depth
          omega
        rw [hr.within (by omega) (by omega)]
        exact ⟨o.pos, by simp only [Except.bind, Measured.within_of_lt hj]⟩

/-- A phrase is read up to the operators that continue its chain, if none of a tighter precedence
follows. -/
theorem Derives.answered {c : Category} {ts : List Token} {t : Tree} {n : Nat}
    (h : Derives c ts t n) (levels : Nat) (rest : List Token)
    (hs : ∀ p d, c.links = some (p, d) → d.Stops rest) :
    Answered levels n t (bare (c.reader levels (ts ++ rest))) (c.goOn levels t.measured rest) := by
  induction h generalizing levels rest with
  | @operand c d p ts t n hc h ih =>
    have hd := hs p d hc
    have hi := ih levels rest fun p' d' hc' => ((Category.Stops.links hc').mp hd).1
    rw [Category.goOn_of_stops hd] at hi
    rw [Category.reader_of_links hc, Category.goOn_of_links hc]
    exact hi.chain
  | @join c d p ls rs o op l r m n hc hl ho hr ihl ihr =>
    have hd := hs p d hc
    have hleft := ihl levels (o :: (rs ++ rest)) fun p' d' hc' => by
      rw [hc] at hc'
      cases hc'
      exact Category.stops_operator hc ho _
    have hright := ihr levels rest fun p' d' hc' => ((Category.Stops.links hc').mp hd).1
    rw [Category.goOn_of_stops hd] at hright
    rw [Category.goOn_of_links hc] at hleft ⊢
    rw [List.append_assoc, List.cons_append]
    exact hleft.join ho hright
  | negate pos h ih =>
    cases levels with
    | zero => exact .no_level pos
    | succ levels =>
      change Answered _ _ _ (bare (operandWith (some (Grammar.operand levels)) _)) _
      rw [List.cons_append, bare_operandWith_minus]
      exact (ih levels rest (by simp [Category.links])).deeper pos _ rfl (Nat.le_succ _)
  | plus pos h ih =>
    cases levels with
    | zero => exact .no_level pos
    | succ levels =>
      change Answered _ _ _ (bare (operandWith (some (Grammar.operand levels)) _)) _
      rw [List.cons_append, bare_operandWith_plus]
      exact (ih levels rest (by simp [Category.links])).same
  | unsigned h ih => exact ih levels rest (by simp [Category.links])
  | literal v pos => cases levels <;> exact .leaf rfl rfl
  | unknown pos => cases levels <;> exact .leaf rfl rfl
  | e pos => cases levels <;> exact .leaf rfl rfl
  | pi pos => cases levels <;> exact .leaf rfl rfl
  | @call ts t n f pos opened closed h ih =>
    cases levels with
    | zero => exact .no_level pos
    | succ levels =>
      have hi := ih levels (⟨.closeParen, closed⟩ :: rest) fun p d _ => d.stops_closeParen closed rest
      rw [Category.goOn_of_stops (Category.stops_closeParen .sum closed rest)] at hi
      change Answered _ _ _ (bare (operandWith (some (Grammar.operand levels)) _)) _
      rw [List.cons_append, List.cons_append, List.append_assoc, List.singleton_append,
        bare_operandWith_call]
      exact hi.closed.deeper pos _ rfl (Nat.le_succ _)
  | @group ts t n opened closed h ih =>
    cases levels with
    | zero => exact .no_level opened
    | succ levels =>
      have hi := ih levels (⟨.closeParen, closed⟩ :: rest) fun p d _ => d.stops_closeParen closed rest
      rw [Category.goOn_of_stops (Category.stops_closeParen .sum closed rest)] at hi
      change Answered _ _ _ (bare (operandWith (some (Grammar.operand levels)) _)) _
      rw [List.cons_append, List.append_assoc, List.singleton_append, bare_operandWith_openParen]
      exact hi.closed.same

/-- A phrase of a category that nothing after it continues is read in full. -/
theorem Derives.answered_of_stops {c : Category} {ts : List Token} {t : Tree} {n : Nat}
    (h : Derives c ts t n) (levels : Nat) {rest : List Token} (hs : c.Stops rest) :
    Answered levels n t (bare (c.reader levels (ts ++ rest))) (.ok (t.measured, rest)) := by
  have hi := h.answered levels rest fun p d hc => ((Category.Stops.links hc).mp hs).1
  rwa [Category.goOn_of_stops hs] at hi

end Grammar
end FormulaRoots
