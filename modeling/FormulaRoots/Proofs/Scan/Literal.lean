import Mathlib.Data.List.TakeWhile
import FormulaRoots.Decimal.Literal
import FormulaRoots.Proofs.Unicode.Casing

/-! Number literals by themselves: a literal cut out of a text is read back as the same literal, also with
its exponent marker in lower case. -/
namespace FormulaRoots.Literal
open Unicode

def IsExponent (e : List Char) : Prop :=
  e = [] ∨ ∃ m ds, e = m :: ds ∧ isMarker m = true ∧ signedDigits ds = ds ∧ ds.any Char.isDigit = true

def characters : Ranges := [(0x2B, 0x39), (0x45, 0x45), (0x65, 0x65)]

theorem isMantissaChar_bounds {c : Char} (h : isMantissaChar c = true) :
    0x2B ≤ c.toNat ∧ c.toNat ≤ 0x39 := by
  simp only [isMantissaChar, Char.isDigit, Bool.or_eq_true, Bool.and_eq_true, decide_eq_true_eq,
    beq_iff_eq] at h
  rcases h with ⟨hl, hu⟩ | rfl
  · have hl := UInt32.le_iff_toNat_le.mp hl
    exact ⟨Nat.le_trans (by decide) hl, UInt32.le_iff_toNat_le.mp hu⟩
  · decide

/-- The characters of a mantissa come before the letters. -/
theorem toNat_of_isMantissaChar {c : Char} (h : isMantissaChar c = true) : c.toNat < 0x41 :=
  Nat.lt_of_le_of_lt (isMantissaChar_bounds h).2 (by decide)

private theorem isMantissaChar_of_isDigit {c : Char} (h : c.isDigit = true) :
    isMantissaChar c = true := by
  rw [isMantissaChar, h, Bool.true_or]

theorem isMarker_iff {c : Char} : isMarker c = true ↔ c = 'e' ∨ c = 'E' := by
  simp only [isMarker, Bool.or_eq_true, beq_iff_eq]

theorem isSign_iff {c : Char} : isSign c = true ↔ c = '+' ∨ c = '-' := by
  simp only [isSign, Bool.or_eq_true, beq_iff_eq]

private theorem of_mem_signedDigits {cs : List Char} {c : Char} (h : c ∈ signedDigits cs) :
    isSign c = true ∨ c.isDigit = true := by
  cases cs with
  | nil => cases h
  | cons d cs =>
    rw [signedDigits] at h
    by_cases hd : isSign d = true
    · rw [if_pos hd] at h
      rcases List.mem_cons.mp h with rfl | h
      · exact .inl hd
      · exact .inr (List.mem_takeWhile_imp h)
    · rw [if_neg hd] at h
      exact .inr (List.mem_takeWhile_imp h)

private theorem signedDigits_signedDigits (cs : List Char) :
    signedDigits (signedDigits cs) = signedDigits cs := by
  cases cs with
  | nil => rfl
  | cons d cs =>
    by_cases hd : isSign d = true
    · simp only [signedDigits, if_pos hd, List.takeWhile_idem]
    · rw [signedDigits, if_neg hd]
      by_cases hdigit : d.isDigit = true
      · rw [List.takeWhile_cons_of_pos hdigit, signedDigits, if_neg hd,
          List.takeWhile_cons_of_pos hdigit, List.takeWhile_idem]
      · rw [List.takeWhile_cons_of_neg hdigit]
        rfl

theorem isExponent_exponentAt (cs : List Char) : IsExponent (exponentAt cs) := by
  cases cs with
  | nil => exact .inl rfl
  | cons m cs =>
    rw [exponentAt]
    by_cases h : (isMarker m && (signedDigits cs).any Char.isDigit) = true
    · rw [if_pos h]
      obtain ⟨hm, hd⟩ := Bool.and_eq_true_iff.mp h
      exact .inr ⟨m, signedDigits cs, rfl, hm, signedDigits_signedDigits cs, hd⟩
    · rw [if_neg h]
      exact .inl rfl

private theorem IsExponent.exponentAt_eq {e : List Char} (h : IsExponent e) : exponentAt e = e := by
  rcases h with rfl | ⟨m, ds, rfl, hm, hs, hd⟩
  · rfl
  · rw [exponentAt, hs, hm, hd]
    rfl

private theorem IsExponent.head_not_mantissa {e : List Char} (h : IsExponent e) :
    e.takeWhile isMantissaChar = [] ∧ e.dropWhile isMantissaChar = e := by
  rcases h with rfl | ⟨m, ds, rfl, hm, -, -⟩
  · exact ⟨rfl, rfl⟩
  · have hn : ¬ isMantissaChar m = true := by
      rcases isMarker_iff.mp hm with rfl | rfl <;> decide
    exact ⟨List.takeWhile_cons_of_neg hn, List.dropWhile_cons_of_neg hn⟩

/-- The characters of a literal are read as that literal. -/
theorem scan_chars {l : Literal} (hm : ∀ c ∈ l.mantissa, isMantissaChar c = true)
    (he : IsExponent l.exponent) : scan l.chars = l := by
  obtain ⟨mantissa, exponent⟩ := l
  obtain ⟨htake, hdrop⟩ := he.head_not_mantissa
  simp only [scan, chars, List.takeWhile_append_of_pos hm, List.dropWhile_append_of_pos hm] at *
  rw [htake, hdrop, he.exponentAt_eq, List.append_nil]

theorem isMantissaChar_of_mem_scan {cs : List Char} {c : Char} (h : c ∈ (scan cs).mantissa) :
    isMantissaChar c = true :=
  List.mem_takeWhile_imp h

private theorem has_characters_of_isMantissaChar {c : Char} (h : isMantissaChar c = true) :
    characters.has c = true := by
  refine List.any_eq_true.mpr ⟨(0x2B, 0x39), List.mem_cons_self .., ?_⟩
  simpa only [Bool.and_eq_true, decide_eq_true_eq] using isMantissaChar_bounds h

theorem isWhiteSpace_of_isMantissaChar {c : Char} (h : isMantissaChar c = true) :
    isWhiteSpace c = false :=
  Ranges.has_eq_false_of_disjoint characters whiteSpace (by decide) (has_characters_of_isMantissaChar h)

private theorem has_characters_of_mem_chars {cs : List Char} {c : Char} (h : c ∈ (scan cs).chars) :
    characters.has c = true := by
  rcases List.mem_append.mp h with h | h
  · exact has_characters_of_isMantissaChar (isMantissaChar_of_mem_scan h)
  · rcases isExponent_exponentAt (cs.dropWhile isMantissaChar) with he | ⟨m, ds, he, hm, hs, -⟩
    · rw [scan, he] at h
      cases h
    · rw [scan, he, ← hs] at h
      rcases List.mem_cons.mp h with rfl | h
      · rcases isMarker_iff.mp hm with rfl | rfl <;> decide
      · rcases of_mem_signedDigits h with h | h
        · rcases isSign_iff.mp h with rfl | rfl <;> decide
        · exact has_characters_of_isMantissaChar (isMantissaChar_of_isDigit h)

/-- No character of a literal is white space. -/
theorem isWhiteSpace_of_mem_chars {cs : List Char} {c : Char} (h : c ∈ (scan cs).chars) :
    isWhiteSpace c = false :=
  Ranges.has_eq_false_of_disjoint characters whiteSpace (by decide) (has_characters_of_mem_chars h)

/-- But for its marker, a literal has no letter. -/
theorem isMarker_or_lt_of_mem_chars {cs : List Char} {c : Char} (h : c ∈ (scan cs).chars) :
    isMarker c = true ∨ c.toNat < 0x41 := by
  have hc := has_characters_of_mem_chars h
  simp only [characters, Ranges.has, List.any_cons, List.any_nil, Bool.or_false, Bool.or_eq_true,
    Bool.and_eq_true, decide_eq_true_eq] at hc
  rw [← Char.ofNat_toNat c]
  obtain hlt | hupper | hlower : c.toNat < 0x41 ∨ c.toNat = 0x45 ∨ c.toNat = 0x65 := by omega
  · rw [Char.ofNat_toNat]
    exact .inr hlt
  · rw [hupper]
    exact .inl rfl
  · rw [hlower]
    exact .inl rfl

/-- A literal takes the characters at the head of the text. -/
theorem chars_scan_prefix (cs : List Char) : (scan cs).chars <+: cs := by
  have he : ∀ ds, exponentAt ds <+: ds := by
    intro ds
    cases ds with
    | nil => exact List.prefix_rfl
    | cons m ds =>
      rw [exponentAt]
      by_cases h : (isMarker m && (signedDigits ds).any Char.isDigit) = true
      · rw [if_pos h]
        refine (List.prefix_cons_inj m).mpr ?_
        cases ds with
        | nil => exact List.prefix_rfl
        | cons d ds =>
          rw [signedDigits]
          by_cases hd : isSign d = true
          · rw [if_pos hd]
            exact (List.prefix_cons_inj d).mpr (List.takeWhile_prefix _)
          · rw [if_neg hd]
            exact List.takeWhile_prefix _
      · rw [if_neg h]
        exact List.nil_prefix
  unfold chars scan
  conv =>
    rhs
    rw [← List.takeWhile_append_dropWhile (p := isMantissaChar) (l := cs)]
  exact (List.prefix_append_right_inj _).mpr (he _)

def lower (l : Literal) : Literal :=
  ⟨l.mantissa, l.exponent.flatMap lowerChar⟩

private theorem flatMap_lowerChar {cs : List Char} (h : ∀ c ∈ cs, c.toNat < 0x41) :
    cs.flatMap lowerChar = cs := by
  induction cs with
  | nil => rfl
  | cons c cs ih =>
    rw [List.flatMap_cons, lowerChar_of_lt (h c (List.mem_cons_self ..)),
      ih fun d hd => h d (List.mem_cons_of_mem c hd)]
    rfl

theorem chars_lower {l : Literal} (hm : ∀ c ∈ l.mantissa, isMantissaChar c = true) :
    l.lower.chars = l.chars.flatMap lowerChar := by
  unfold chars lower
  rw [List.flatMap_append, flatMap_lowerChar fun c hc => toNat_of_isMantissaChar (hm c hc)]

private theorem IsExponent.lower_eq {e : List Char} (h : IsExponent e) :
    (e = [] ∧ e.flatMap lowerChar = []) ∨
      ∃ m ds, e = m :: ds ∧ isMarker m = true ∧ signedDigits ds = ds ∧
        ds.any Char.isDigit = true ∧ e.flatMap lowerChar = 'e' :: ds := by
  rcases h with rfl | ⟨m, ds, rfl, hm, hs, hd⟩
  · exact .inl ⟨rfl, rfl⟩
  · refine .inr ⟨m, ds, rfl, hm, hs, hd, ?_⟩
    have hlt : ∀ c ∈ ds, c.toNat < 0x41 := by
      intro c hc
      rw [← hs] at hc
      rcases of_mem_signedDigits hc with hc | hc
      · rcases isSign_iff.mp hc with rfl | rfl <;> decide
      · exact toNat_of_isMantissaChar (isMantissaChar_of_isDigit hc)
    have hmark : lowerChar m = ['e'] := by
      rcases isMarker_iff.mp hm with rfl | rfl <;> decide
    rw [List.flatMap_cons, hmark, flatMap_lowerChar hlt]
    rfl

theorem IsExponent.lower {e : List Char} (h : IsExponent e) : IsExponent (e.flatMap lowerChar) := by
  rcases h.lower_eq with ⟨-, he⟩ | ⟨m, ds, -, -, hs, hd, he⟩
  · rw [he]
    exact .inl rfl
  · rw [he]
    exact .inr ⟨'e', ds, rfl, by decide, hs, hd⟩

/-- The case of the marker does not change the number. -/
theorem value?_lower {l : Literal} (he : IsExponent l.exponent) : l.lower.value? = l.value? := by
  have hvalue : exponentValue (l.exponent.flatMap lowerChar) = exponentValue l.exponent := by
    rcases he.lower_eq with ⟨h, hl⟩ | ⟨m, ds, h, hm, -, -, hl⟩
    · rw [hl, h]
    · rw [hl, h]
      rcases isMarker_iff.mp hm with rfl | rfl <;> rfl
  unfold value? toDecimal isWellFormed lower
  rw [hvalue]

end FormulaRoots.Literal
