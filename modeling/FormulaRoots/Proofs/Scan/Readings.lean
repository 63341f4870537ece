import FormulaRoots.Proofs.Scan.Lexeme

/-! What a text can mean if only its plain form is known. White space may have stood at any place, so
every way to cut the plain form into words has to be considered. -/
namespace FormulaRoots
open Unicode ClosedForm

namespace ClosedForm

/-- The lexemes of each way to cut a plain text into at most `words` words. -/
def readings (words : Nat) (cs : List Char) : List (List Lexeme) :=
  match words, cs with
  | _, [] => [[]]
  | 0, _ :: _ => []
  | words + 1, c :: cs =>
    (List.range (cs.length + 1)).flatMap fun k =>
      match Lexeme.ofWord? (c :: cs.take k) with
      | some lexeme => (readings words (cs.drop k)).map (lexeme :: ·)
      | none => []

private theorem nil_mem_readings (words : Nat) : [] ∈ readings words [] := by
  cases words <;> exact List.mem_cons_self ..

private theorem cons_mem_readings {words : Nat} {word rest : List Char} {lexeme : Lexeme}
    {lexemes : List Lexeme} (hw : Lexeme.ofWord? word = some lexeme)
    (hr : lexemes ∈ readings words rest) :
    lexeme :: lexemes ∈ readings (words + 1) (word ++ rest) := by
  cases word with
  | nil => cases hw
  | cons c cs =>
    rw [List.cons_append, readings, List.mem_flatMap]
    refine ⟨cs.length, List.mem_range.mpr ?_, ?_⟩
    · rw [List.length_append]
      omega
    · simp only [List.take_left', List.drop_left', hw]
      exact List.mem_map_of_mem hr

private theorem plain_cons_of_isWhiteSpace {c : Char} (h : isWhiteSpace c = true) (cs : List Char) :
    plain (c :: cs) = plain cs := by
  rw [plain, List.filter_cons_of_neg (by rw [h]; decide)]
  rfl

/-- The tokens of a text are one of the readings of its plain form. -/
theorem lexemes_mem_readings {cs : List Char} {pos words : Nat} {ts : List Token}
    (hlen : (plain cs).length ≤ words) (h : Token.scanFrom pos 0 cs = .ok ts) :
    ts.map Token.lexeme ∈ readings words (plain cs) := by
  -- on the length of the text, since a lexeme may take several characters at once
  induction hn : cs.length using Nat.strong_induction_on generalizing cs pos words ts with
  | _ n ih =>
    cases cs with
    | nil =>
      cases h
      exact nil_mem_readings words
    | cons c cs =>
      rcases Token.scanFrom_cases h with ⟨hw, hcs⟩ | ⟨-, lexeme, length, rest, hscan, hpos, hrest, rfl⟩
      · rw [plain_cons_of_isWhiteSpace hw] at hlen ⊢
        rw [List.length_cons] at hn
        exact ih cs.length (by omega) hlen hcs rfl
      · have hword := (Lexeme.ofWord?_plain_take hscan).2
        have hsplit : plain (c :: cs) =
            plain ((c :: cs).take length) ++ plain ((c :: cs).drop length) := by
          rw [← plain_append, List.take_append_drop]
        have hne : 0 < (plain ((c :: cs).take length)).length := by
          refine List.length_pos_iff.mpr fun hnil => ?_
          rw [hnil] at hword
          cases hword
        -- the word has characters, so one word less is enough for what follows it
        rw [hsplit, List.length_append] at hlen
        obtain ⟨words, rfl⟩ := Nat.exists_eq_succ_of_ne_zero (n := words) (by omega)
        have hdrop : ((c :: cs).drop length).length < n := by
          rw [List.length_drop, ← hn, List.length_cons]
          omega
        rw [hsplit, List.map_cons]
        exact cons_mem_readings hword (ih _ hdrop (by omega) hrest rfl)

end ClosedForm
end FormulaRoots
