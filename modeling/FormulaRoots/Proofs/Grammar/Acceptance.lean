import FormulaRoots.Proofs.Grammar.Soundness

/-! Token lists are accepted exactly as the grammar and the two limits say. -/
namespace FormulaRoots
open Grammar

namespace Tree

def ofReading : Measured × List Token → Except FormulaError Tree
  | (m, []) => .ok m.tree
  | (_, t :: _) => .error (.unexpectedToken t)

/-- Unless there is no token, reading is matching the parentheses and then reading a sum. -/
theorem ofTokens_of_ne_nil {ts : List Token} (hne : ts ≠ []) :
    ofTokens ts = (checkParens [] ts).bind fun _ =>
      (bare (Category.sum.reader nestingLimit ts)).bind ofReading := by
  have he : ts.isEmpty = false := List.isEmpty_eq_false_iff.mpr hne
  unfold ofTokens
  rw [he]
  cases checkParens [] ts with
  | error e => rfl
  | ok u =>
    change (Grammar.sum (Grammar.operand nestingLimit) ts).bind _ =
      (bare (Grammar.sum (Grammar.operand nestingLimit) ts)).bind ofReading
    cases h : Grammar.sum (Grammar.operand nestingLimit) ts with
    | error e => rfl
    | ok x =>
      obtain ⟨m, rest, hr⟩ := x
      cases rest <;> rfl

theorem ofTokens_of_checkParens {ts : List Token} (hne : ts ≠ []) (hp : checkParens [] ts = .ok ()) :
    ofTokens ts = (bare (Category.sum.reader nestingLimit ts)).bind ofReading := by
  rw [ofTokens_of_ne_nil hne, hp]
  rfl

/-- A derivable token list is answered with its tree or, beyond a limit, refused for its nesting. -/
theorem ofTokens_of_derives {ts : List Token} {t : Tree} {n : Nat} (h : Derives .sum ts t n) :
    (n ≤ nestingLimit → t.depth ≤ nestingLimit → ofTokens ts = .ok t) ∧
    (nestingLimit < n ∨ nestingLimit < t.depth → ∃ pos, ofTokens ts = .error (.nestingTooDeep pos)) := by
  have hp : checkParens [] ts = .ok () := by
    have hc := h.checkParens_append [] []
    rw [List.append_nil] at hc
    exact hc
  have ha := h.answered_of_stops nestingLimit (Category.stops_nil .sum)
  rw [List.append_nil] at ha
  rw [ofTokens_of_checkParens h.ne_nil hp]
  constructor
  · intro hn hd
    rw [ha.within hn hd]
    rfl
  · intro hb
    obtain ⟨pos, he⟩ := ha.beyond hb
    exact ⟨pos, by rw [he]; rfl⟩

/-- An accepted token list is derivable within both limits, with the tree returned. -/
theorem derives_of_ofTokens {ts : List Token} {t : Tree} (h : ofTokens ts = .ok t) :
    ∃ n, Derives .sum ts t n ∧ n ≤ nestingLimit ∧ t.depth ≤ nestingLimit := by
  have hne : ts ≠ [] := by
    rintro rfl
    cases h
  cases hp : checkParens [] ts with
  | error e =>
    rw [ofTokens_of_ne_nil hne, hp] at h
    cases h
  | ok u =>
    rw [ofTokens_of_checkParens hne hp] at h
    cases hr : bare (Category.sum.reader nestingLimit ts) with
    | error e =>
      rw [hr] at h
      cases h
    | ok x =>
      obtain ⟨m, rest⟩ := x
      obtain ⟨phrase, u, n, rfl, hu, hn, rfl, hd⟩ := (sound_operand nestingLimit).sum ts m rest hr
      rw [hr] at h
      cases rest with
      | nil =>
        cases h
        exact ⟨n, by rwa [List.append_nil], hn, hd⟩
      | cons left rest => cases h

/-- The tree of a token list does not depend on the places of the tokens. -/
theorem ofTokens_of_lexemes {ts us : List Token} {t : Tree}
    (hu : us.map Token.lexeme = ts.map Token.lexeme) (h : ofTokens ts = .ok t) :
    ofTokens us = .ok t := by
  obtain ⟨n, hd, hn, ht⟩ := derives_of_ofTokens h
  exact (ofTokens_of_derives (hd.of_lexemes hu)).1 hn ht

/-- A derivable token list yields its tree, unless more than 256 signs, calls and parentheses are open
at once or the tree is deeper than 256; then it is refused for its nesting. Any other list is refused. -/
theorem ofTokens_decides_grammar (ts : List Token) :
    (∀ t n, Derives .sum ts t n → n ≤ 256 → t.depth ≤ 256 → ofTokens ts = .ok t) ∧
    (∀ t n, Derives .sum ts t n → 256 < n ∨ 256 < t.depth →
      ∃ pos, ofTokens ts = .error (.nestingTooDeep pos) ∧
        (FormulaError.nestingTooDeep pos).message =
          "formula nests deeper than 256 levels at position " ++ toString pos) ∧
    ((¬ ∃ t n, Derives .sum ts t n) → ∃ e, ofTokens ts = .error e) := by
  refine ⟨fun t n h => (ofTokens_of_derives h).1, ?_, ?_⟩
  · intro t n h hb
    obtain ⟨pos, he⟩ := (ofTokens_of_derives h).2 hb
    exact ⟨pos, he, rfl⟩
  · intro hno
    cases h : ofTokens ts with
    | error e => exact ⟨e, rfl⟩
    | ok t =>
      obtain ⟨n, hd, -, -⟩ := derives_of_ofTokens h
      exact absurd ⟨t, n, hd⟩ hno

/-- A sign binds tighter than a power: `-x ^ 2` is the square of `-x`. -/
theorem ofTokens_signed_power :
    let ts : List Token := [⟨.minus, 0⟩, ⟨.variable, 1⟩, ⟨.caret, 3⟩, ⟨.number 2.0, 5⟩]
    let t : Tree := .binary .pow (.negate .variable) (.number 2.0)
    Derives .sum ts t 1 ∧ t.depth ≤ 256 ∧ ofTokens ts = .ok t := by
  intro ts t
  have hbase : Derives .power [⟨.minus, 0⟩, ⟨.variable, 1⟩] (.negate .variable) 1 :=
    .operand rfl (.negate 0 (.unsigned (.unknown 1)))
  have hpow : Derives .power ts t 1 :=
    .join rfl hbase (o := ⟨.caret, 3⟩) rfl (.unsigned (.literal 2.0 5))
  have h : Derives .sum ts t 1 := .operand rfl (.operand rfl hpow)
  have hd : t.depth ≤ 256 := by decide
  exact ⟨h, hd, (ofTokens_decides_grammar ts).1 t 1 h (by decide) hd⟩

end Tree
end FormulaRoots
