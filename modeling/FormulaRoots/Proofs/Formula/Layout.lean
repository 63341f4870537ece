import FormulaRoots.Proofs.Formula.ClosedForm
import FormulaRoots.Proofs.Scan.LetterCase
import FormulaRoots.Proofs.Scan.Spacing

/-! White space between the lexemes of a formula and the case of its letters carry no meaning: the tree and
the closed form stay, and so does an error, which shows at the same token. -/
namespace FormulaRoots
open Unicode

def IsInside (text : List Char) (i : Nat) : Prop :=
  ∃ extents, IsSegmentation text 0 extents ∧ ∃ e ∈ extents, e.start < i ∧ i < e.stop

/-- Another text with the same lexemes: white space has been put in, `gaps i` in front of the character at
`i`, though nowhere inside a lexeme, and letters of ASCII have changed their case. -/
structure Restyles (gaps : Nat → List Char) (text other : List Char) : Prop where
  blank : ∀ i, IsBlank (gaps i)
  between : ∀ i, IsInside text i → gaps i = []
  letters : other.map Char.toLower = (spread gaps text).map Char.toLower

section
variable {gaps : Nat → List Char} {text other : List Char}

namespace ClosedForm

private theorem plain_of_isBlank {cs : List Char} (h : IsBlank cs) : plain cs = [] := by
  rw [plain, List.filter_eq_nil_iff.mpr fun c hc => by simp [h c hc]]
  rfl

private theorem plain_weave (hgaps : ∀ i, IsBlank (gaps i)) (pos : Nat) (cs : List Char) :
    plain (weave gaps pos cs) = plain cs := by
  induction cs generalizing pos with
  | nil => rfl
  | cons c cs ih =>
    rw [weave, plain_append, plain_of_isBlank (hgaps pos), List.nil_append]
    exact (plain_append [c] _).trans ((congrArg (plain [c] ++ ·) (ih (pos + 1))).trans
      (plain_append [c] cs).symm)

private theorem plain_toLower (cs : List Char) : plain (cs.map Char.toLower) = plain cs := by
  simp only [plain, List.filter_map, List.flatMap_map, Function.comp_def, isWhiteSpace_toLower,
    lowerChar_toLower]

end ClosedForm

namespace Restyles

private theorem ofText?_trim (h : Restyles gaps text other) :
    ClosedForm.ofText? (trim other) = ClosedForm.ofText? (trim text) := by
  have hplain : ClosedForm.plain (trim other) = ClosedForm.plain (trim text) := by
    rw [ClosedForm.plain_trim, ClosedForm.plain_trim, ← ClosedForm.plain_toLower other, h.letters,
      ClosedForm.plain_toLower, spread, ClosedForm.plain_append, ClosedForm.plain_weave h.blank,
      ClosedForm.plain_of_isBlank (h.blank _), List.append_nil]
  rw [ClosedForm.ofText?, ClosedForm.ofText?, hplain]

/-- The tokens stay, each as much further behind as characters were put in before it. -/
theorem scan_eq {ts : List Token} (h : Restyles gaps text other) (hscan : Token.scan text = .ok ts) :
    Token.scan other = .ok (ts.map (Token.move (placeIn gaps))) := by
  obtain ⟨extents, htiles, rfl⟩ := Token.tiles_of_scanFrom hscan
  have hseg : IsSegmentation text 0 extents := htiles.isSegmentation [] rfl
  have hinside : ∀ e ∈ extents, ∀ i, e.start < i → i < e.stop → gaps i = [] :=
    fun e he i hi hlt => h.between i ⟨extents, hseg, e, he, hi, hlt⟩
  refine Token.scan_of_toLower h.letters ?_
  have hspread := Token.scanFrom_of_tiles (htiles.spaced h.blank (h.blank text.length) hinside)
  rw [List.map_map] at hspread ⊢
  exact hspread

private theorem scan_trim {ts : List Token} (h : Restyles gaps text other)
    (hscan : Token.scan text = .ok ts) :
    ∃ tokens place, Token.scan (trim text) = .ok tokens ∧
      Token.scan (trim other) = .ok (tokens.map (Token.move place)) := by
  obtain ⟨tokens, htext, rfl⟩ := Token.scan_trim hscan
  obtain ⟨tokens', hother, heq⟩ := Token.scan_trim (h.scan_eq hscan)
  let place (p : Nat) : Nat := placeIn gaps (p + indentation text) - indentation other
  refine ⟨tokens, place, htext, hother.trans (congrArg Except.ok ?_)⟩
  have hback := congrArg (List.map (Token.move (· - indentation other))) heq
  simp only [List.map_map, Function.comp_def, Token.move, Nat.add_sub_cancel] at hback
  exact (List.map_id tokens').symm.trans hback.symm

end Restyles

namespace Expression

/-- White space and the case of letters do not change what a formula means. The tokens stay, each as much
further behind as characters were put in before it. The tree and the closed form stay, and an error stays
but for its place, which is that of the same token. -/
theorem ofText_restyled {ts : List Token} (h : Restyles gaps text other) (hscan : Token.scan text = .ok ts) :
    Token.scan other = .ok (ts.map (Token.move (placeIn gaps))) ∧
    ∃ tokens place, Token.scan (trim text) = .ok tokens ∧
      Token.scan (trim other) = .ok (tokens.map (Token.move place)) ∧
      (∀ e, ofText (String.ofList text) = .ok e → ∃ e', ofText (String.ofList other) = .ok e' ∧
        e'.formula.tree = e.formula.tree ∧ e'.formula.closedForm = e.formula.closedForm) ∧
      ∀ cause, ofText (String.ofList text) = .error cause →
        ofText (String.ofList other) = .error (cause.move place) ∧
        ∀ pos ∈ cause.pos?, ∃ t ∈ tokens, t.pos = pos := by
  obtain ⟨tokens, place, htext, hother⟩ := h.scan_trim hscan
  refine ⟨h.scan_eq hscan, tokens, place, htext, hother, ?_⟩
  rw [ofText_of_scan htext, ofText_of_scan hother, Tree.ofTokens_move, h.ofText?_trim]
  cases htree : Tree.ofTokens tokens with
  | ok tree =>
    refine ⟨fun e he => ?_, nofun⟩
    cases he
    exact ⟨_, rfl, rfl, rfl⟩
  | error cause =>
    refine ⟨nofun, fun cause' hcause => ?_⟩
    cases hcause
    exact ⟨rfl, fun pos hpos => Tree.exists_token_of_ofTokens htree hpos⟩

/-- The exponent marker of `2e1)` in capitals and white space around the number: the parenthesis that
closes nothing is found where it now stands. -/
theorem ofText_restyled_exponent :
    let gaps (i : Nat) : List Char := if i = 0 ∨ i = 3 then [' '] else []
    let text := "2e1)".toList
    let other := " 2E1 )".toList
    Restyles gaps text other ∧
    Token.scan text = .ok [⟨.number 20.0, 0⟩, ⟨.closeParen, 3⟩] ∧
    Token.scan other = .ok [⟨.number 20.0, 1⟩, ⟨.closeParen, 5⟩] ∧
    ofText (String.ofList other) = .error (.unmatchedCloseParen 4) := by
  intro gaps text other
  obtain ⟨number, htiles⟩ : ∃ number, Tiles 0 text [⟨number, 0, 3⟩, ⟨.closeParen, 3, 4⟩] := by
    have hdigits : IsRun Char.isDigit ['1'] [')'] := isRun_of_all (by decide) (by decide)
    have hexponent : Literal.IsExponentOf ['e', '1'] [')'] :=
      .some (m := 'e') (s := []) (.inl rfl) (.inl rfl) nofun hdigits
    have hmantissa : IsRun (fun c => c.isDigit || c == '.') ['2'] (['e', '1'] ++ [')']) :=
      isRun_of_all (by decide) (by decide)
    have hword : Lexeme.Spells ['2', 'e', '1'] [')'] _ :=
      .literal hmantissa ⟨'2', by decide, by decide⟩ (by decide) hexponent
    have hclose : Lexeme.Spells [')'] [] .closeParen := .sign (by decide) []
    exact ⟨_, .cons_at isBlank_nil hword rfl rfl <|
      .cons_at isBlank_nil hclose rfl rfl (.blank isBlank_nil)⟩
  have hrestyles : Restyles gaps text other := by
    refine ⟨fun i => ?_, ?_, by decide⟩
    · by_cases hi : i = 0 ∨ i = 3
      · simp only [gaps, if_pos hi, isBlank_space]
      · simp only [gaps, if_neg hi]
        nofun
    · rintro i ⟨extents, hseg, e, he, hstart, hstop⟩
      rw [htiles.unique hseg.tiles] at he
      simp only [List.mem_cons, List.not_mem_nil, or_false] at he
      refine if_neg ?_
      rcases he with rfl | rfl <;> dsimp only at hstart hstop <;> omega
  have hscan : Token.scan text = .ok [⟨.number 20.0, 0⟩, ⟨.closeParen, 3⟩] := by decide +kernel
  obtain ⟨hother, tokens, place, htext, hplace, -, herror⟩ := ofText_restyled hrestyles hscan
  have htrim : Token.scan (trim text) = .ok [⟨.number 20.0, 0⟩, ⟨.closeParen, 3⟩] := by decide +kernel
  have htrim' : Token.scan (trim other) = .ok [⟨.number 20.0, 0⟩, ⟨.closeParen, 4⟩] := by decide +kernel
  have hfails : ofText (String.ofList text) = .error (.unmatchedCloseParen 3) := by
    rw [ofText_of_scan htrim]
    rfl
  rw [htrim, Except.ok.injEq] at htext
  rw [htrim', ← htext, Except.ok.injEq] at hplace
  have hlast : 4 = place 3 := congrArg (fun ts => ts.getLast?.elim 0 Token.pos) hplace
  refine ⟨hrestyles, hscan, hother, ?_⟩
  rw [(herror _ hfails).1, hlast]
  rfl

end Expression
end
end FormulaRoots
