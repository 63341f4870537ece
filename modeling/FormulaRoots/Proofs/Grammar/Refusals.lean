import Mathlib.Data.List.Basic
import FormulaRoots.Proofs.Grammar.Faults

/-! Why token lists are refused. Unmatched parentheses are found by counting, whatever else is wrong. If all
match, an error points at the first token that no formula goes on with. -/
namespace FormulaRoots
open Grammar

/-! ### Unmatched parentheses -/

private theorem Grammar.Fault.matched {c : Category} {read : Reader} {ts : List Token}
    {e : FormulaError}
    (h : Fault c read ts e) (pos : Nat) : e ≠ .unmatchedCloseParen pos ∧ e ≠ .unmatchedOpenParen pos := by
  cases h <;> exact ⟨nofun, nofun⟩

namespace Tree

/-- Where a token list is refused, its parentheses do not match, reading breaks off, or a token is left. -/
theorem ofTokens_error_cases {ts : List Token} {e : FormulaError} (hne : ts ≠ [])
    (h : ofTokens ts = .error e) :
    checkParens [] ts = .error e ∨ bare (Category.sum.reader nestingLimit ts) = .error e ∨
    ∃ m t rest, bare (Category.sum.reader nestingLimit ts) = .ok (m, t :: rest) ∧ e = .unexpectedToken t := by
  rw [ofTokens_of_ne_nil hne] at h
  rcases bind_eq_error_iff.mp h with hparens | ⟨u, -, hread⟩
  · exact .inl hparens
  · rcases bind_eq_error_iff.mp hread with hfault | ⟨⟨m, rest⟩, hsum, hrest⟩
    · exact .inr (.inl hfault)
    · cases rest with
      | nil => cases hrest
      | cons t rest =>
        cases hrest
        exact .inr (.inr ⟨m, t, rest, hsum, rfl⟩)

private theorem ofTokens_of_unmatched {ts : List Token} {e : FormulaError}
    (h : checkParens [] ts = .error e) :
    ofTokens ts = .error e := by
  have hne : ts ≠ [] := by
    rintro rfl
    cases h
  rw [ofTokens_of_ne_nil hne, h]
  rfl

/-- Unmatched parentheses are reported exactly as the heights of the prefixes say. A `)` is reported if some
prefix has more of them than `(`, and it ends the shortest one. Otherwise a `(` is reported if there are more
of them than `)` in all, and it is the earliest that every longer prefix leaves open. -/
theorem ofTokens_unmatched_iff (ts : List Token) :
    (∀ pos, ofTokens ts = .error (.unmatchedCloseParen pos) ↔
      ∃ before last after, ts = before ++ last :: after ∧ last.pos = pos ∧ height (before ++ [last]) < 0 ∧
        ∀ p, p <+: before → 0 ≤ height p) ∧
    ∀ pos, ofTokens ts = .error (.unmatchedOpenParen pos) ↔
      (∀ p, p <+: ts → 0 ≤ height p) ∧ 0 < height ts ∧
      ∃ before t after, ts = before ++ t :: after ∧ t.pos = pos ∧ StaysOpen before t after ∧
        ∀ before' t' after', ts = before' ++ t' :: after' → StaysOpen before' t' after' →
          before.length ≤ before'.length := by
  have parens (e : FormulaError) (pos : Nat) (he : e = .unmatchedCloseParen pos ∨ e = .unmatchedOpenParen pos) :
      ofTokens ts = .error e ↔ checkParens [] ts = .error e := by
    refine ⟨fun h => ?_, ofTokens_of_unmatched⟩
    by_cases hne : ts = []
    · subst hne
      rcases he with rfl | rfl <;> cases h
    · rcases ofTokens_error_cases hne h with hparens | hread | ⟨m, t, rest, -, rfl⟩
      · exact hparens
      · have hfault := (settled_operand nestingLimit).sum.fault ts e hread
        rcases he with rfl | rfl
        · exact absurd rfl (hfault.matched pos).1
        · exact absurd rfl (hfault.matched pos).2
      · rcases he with he | he <;> cases he
  exact ⟨fun pos => (parens _ pos (.inl rfl)).trans unmatchedClose_iff_shortest,
    fun pos => (parens _ pos (.inr rfl)).trans unmatchedOpen_iff_earliest⟩

end Tree

/-! ### Other faults -/

/-- What an error says about a token list in which all parentheses match: an unexpected token is the first
with which no formula goes on; a function that has no argument is one with which a formula goes on; and at
an unexpected end the last token is an operator that has no right operand. -/
def FormulaError.Diagnoses (ts : List Token) : FormulaError → Prop
  | unexpectedToken t =>
    ∃ i : Nat, ts[i]? = some t ∧ Category.sum.Begins (ts.take i) ∧ ¬ Category.sum.Begins (ts.take (i + 1))
  | missingCallParen f pos =>
    ∃ i : Nat, ts[i]? = some ⟨.function f, pos⟩ ∧ Category.sum.Begins (ts.take (i + 1)) ∧
      ∀ next ∈ ts[i + 1]?, next.lexeme ≠ .openParen
  | unexpectedEnd =>
    Category.sum.Begins ts ∧ (¬ ∃ t n, Derives .sum ts t n) ∧
      ∃ last ∈ ts.getLast?, last.lexeme ∈ operators
  | nestingTooDeep _ => True
  | _ => False

namespace Grammar
variable {ts front : List Token} {t : Token}

private theorem Derives.read_or_deep {tree : Tree} {n : Nat} (h : Derives .sum ts tree n)
    (levels : Nat) :
    bare (Category.sum.reader levels ts) = .ok (tree.measured, []) ∨
    ∃ pos, bare (Category.sum.reader levels ts) = .error (.nestingTooDeep pos) := by
  have hanswer := h.answered_of_stops levels (Category.stops_nil .sum)
  rw [List.append_nil] at hanswer
  by_cases hwithin : n ≤ levels ∧ tree.depth ≤ nestingLimit
  · exact .inl (hanswer.within hwithin.1 hwithin.2)
  · exact .inr (hanswer.beyond (by omega))

private theorem not_begins_of_read (levels : Nat)
    (h : ∀ more, (∃ e, bare (Category.sum.reader levels (front ++ more)) = .error (.unexpectedToken e)) ∨
      ∃ m last rest, bare (Category.sum.reader levels (front ++ more)) = .ok (m, last :: rest)) :
    ¬ Category.sum.Begins front := by
  rintro ⟨more, tree, n, hd⟩
  rcases h more with ⟨e, he⟩ | ⟨m, last, rest, he⟩ <;>
    rcases hd.read_or_deep levels with hr | ⟨pos, hr⟩ <;>
      rw [he] at hr <;> cases hr

private theorem last_of_unfinished (hne : ts ≠ []) (hb : Balanced ts)
    (hend : ∀ outer, Unfinished outer → Unfinished (outer ++ ts)) :
    ∃ last ∈ ts.getLast?, last.lexeme ∈ operators := by
  have hplus : Lexeme.plus ∈ operators := by decide
  -- with an operator in front there is something to follow, and it cannot be the one
  rcases hend ([] ++ [⟨.plus, 0⟩]) (unfinished_operator [] hplus) with
    ⟨before, o, heq, ho⟩ | ⟨before, pos, after, heq, hafter⟩
  · refine ⟨o, ?_, ho⟩
    have hlast := congrArg List.getLast? heq
    have hts := List.getLast?_eq_some_getLast hne
    rw [List.getLast?_append, hts, Option.some_or, List.getLast?_concat] at hlast
    exact hts.trans hlast
  · cases before with
    | nil => cases heq
    | cons first before =>
      obtain ⟨-, htail⟩ : (_ ∧ ts = before ++ ⟨.openParen, pos⟩ :: after) := List.cons.inj heq
      rw [htail] at hb
      have hstart := hb.1 before (List.prefix_append ..)
      have hfinal := hafter.final
      have hzero := hb.2
      rw [height_append, height_cons, rise] at hzero
      omega

end Grammar

private theorem Grammar.take_length_succ (before : List Token) (t : Token) (after : List Token) :
    (before ++ t :: after).take (before.length + 1) = before ++ [t] :=
  List.take_length_add_append 1

/-- If all parentheses match, an error says where and why no formula goes on. In particular it is never one
of unmatched parentheses, and it is none that only a text can have. -/
theorem Tree.ofTokens_diagnoses {ts : List Token} {e : FormulaError} (hne : ts ≠ []) (hb : Balanced ts)
    (h : ofTokens ts = .error e) : e.Diagnoses ts := by
  have hsettled := (settled_operand nestingLimit).sum
  rcases ofTokens_error_cases hne h with hparens | hread | ⟨m, t, rest, hread, rfl⟩
  · rw [checkParens_nil_eq_ok_iff.mpr hb] at hparens
    cases hparens
  · cases hsettled.fault ts e hread with
    | @token before t after hbegins hagain =>
      refine ⟨before.length, by simp, by simpa using hbegins, ?_⟩
      rw [take_length_succ]
      refine not_begins_of_read nestingLimit fun more => .inl ⟨t, ?_⟩
      rw [List.append_assoc]
      exact hagain more
    | @call before after f pos hbegins hnext =>
      refine ⟨before.length, by simp, ?_, fun next hmem => hnext next ?_⟩
      · rwa [take_length_succ]
      · rwa [List.getElem?_append_right (Nat.le_add_right ..), Nat.add_sub_cancel_left,
          List.getElem?_cons_succ, ← List.head?_eq_getElem?] at hmem
    | ended hbegins hend =>
      refine ⟨hbegins, ?_, last_of_unfinished hne hb hend⟩
      rintro ⟨tree, n, hd⟩
      rcases hd.read_or_deep nestingLimit with hr | ⟨pos, hr⟩ <;> rw [hread] at hr <;> cases hr
    | deep => trivial
  -- a formula would go on with no token, and this one is left
  · obtain ⟨phrase, tree, n, rfl, hphrase, hagain⟩ := hsettled.read_again hread
    refine ⟨phrase.length, by simp, by simpa using Category.Begins.of_derives hphrase, ?_⟩
    rw [take_length_succ]
    refine not_begins_of_read nestingLimit fun more => .inr ⟨m, t, more, ?_⟩
    rw [List.append_assoc]
    exact hagain (t :: more) rfl

/-- In `sin(x * ) + 2` the closing parenthesis is the first token with which no formula goes on. -/
theorem Tree.ofTokens_diagnoses_missing_factor :
    let ts : List Token := [⟨.function .sin, 0⟩, ⟨.openParen, 3⟩, ⟨.variable, 4⟩, ⟨.star, 6⟩,
      ⟨.closeParen, 8⟩, ⟨.plus, 10⟩, ⟨.number 2.0, 12⟩]
    ts ≠ [] ∧ Balanced ts ∧ ofTokens ts = .error (.unexpectedToken ⟨.closeParen, 8⟩) ∧
      ∃ i : Nat, ts[i]? = some ⟨.closeParen, 8⟩ ∧ Category.sum.Begins (ts.take i) ∧
        ¬ Category.sum.Begins (ts.take (i + 1)) := by
  intro ts
  have hne : ts ≠ [] := nofun
  have hb : Balanced ts := by decide
  have h : ofTokens ts = .error (.unexpectedToken ⟨.closeParen, 8⟩) := by decide +kernel
  exact ⟨hne, hb, h, ofTokens_diagnoses hne hb h⟩

end FormulaRoots
