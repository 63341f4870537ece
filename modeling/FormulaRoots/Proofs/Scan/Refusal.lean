import FormulaRoots.Proofs.Scan.Spacing

/-! Which texts are refused by the scanner, and where. It fails at the first place it reaches where no lexeme
is spelled, and the text in front of that place can be scanned alone. -/
namespace FormulaRoots
open Unicode

def OpensNext (cs : List Char) : Prop :=
  ∃ gap more, cs = gap ++ '(' :: more ∧ IsBlank gap

namespace Lexeme

/-- The text that stands at `pos` begins with something visible that is no lexeme, and the error says with
what: a character that can be in no lexeme; digits and dots with the exponent behind them that are no number;
or a name that means nothing, where it matters for the error whether a parenthesis opens behind it. Digits,
dots and letters are taken as far as they go. -/
inductive Misspelled (pos : Nat) : List Char → FormulaError → Prop
  | char {c : Char} (hvisible : isWhiteSpace c = false) (hsign : ∀ lexeme, (c, lexeme) ∉ signs)
      (hdigit : c.isDigit = false) (hdot : c ≠ '.') (hw : isAlphabetic c = false) (rest : List Char) :
      Misspelled pos (c :: rest) (.unexpectedChar c pos)
  | literal {mantissa exponent rest : List Char} (hne : mantissa ≠ [])
      (hm : IsRun (fun c => c.isDigit || c == '.') mantissa (exponent ++ rest))
      (he : Literal.IsExponentOf exponent rest)
      (hbad : 2 ≤ mantissa.count '.' ∨ ∀ c ∈ mantissa, c.isDigit = false) :
      Misspelled pos (mantissa ++ (exponent ++ rest))
        (.invalidNumber (String.ofList (mantissa ++ exponent)) pos)
  | function {word rest : List Char} (hne : word ≠ []) (hw : IsRun isAlphabetic word rest)
      (hname : ∀ lexeme, (lowercase word, lexeme) ∉ names) (hcall : OpensNext rest) :
      Misspelled pos (word ++ rest) (.unknownFunction (String.ofList (lowercase word)) pos)
  | identifier {word rest : List Char} (hne : word ≠ []) (hw : IsRun isAlphabetic word rest)
      (hname : ∀ lexeme, (lowercase word, lexeme) ∉ names) (hcall : ¬ OpensNext rest) :
      Misspelled pos (word ++ rest) (.unknownIdentifier (String.ofList (lowercase word)) pos)

end Lexeme

private theorem nextVisible?_eq_openParen_iff {cs : List Char} :
    nextVisible? cs = some '(' ↔ OpensNext cs := by
  rw [nextVisible?, List.find?_eq_some_iff_append, OpensNext]
  simp only [IsBlank, Bool.not_not, show isWhiteSpace '(' = false by decide, Bool.not_false, true_and]

private theorem Literal.isMantissaChar_eq_false_iff {c : Char} :
    isMantissaChar c = false ↔ c.isDigit = false ∧ c ≠ '.' := by
  rw [isMantissaChar, Bool.or_eq_false_iff, beq_eq_false_iff_ne]

private theorem Literal.value?_eq_none_iff {l : Literal} :
    l.value? = none ↔ 2 ≤ l.mantissa.count '.' ∨ ∀ c ∈ l.mantissa, c.isDigit = false := by
  have hwell : l.isWellFormed = false ↔ 2 ≤ l.mantissa.count '.' ∨ ∀ c ∈ l.mantissa, c.isDigit = false := by
    rw [isWellFormed, Bool.and_eq_false_iff, decide_eq_false_iff_not, Nat.not_le, or_comm, List.any_eq_false]
    simp only [Bool.not_eq_true, Nat.lt_iff_add_one_le]
  rw [← hwell, value?]
  cases l.isWellFormed <;> simp

namespace Lexeme

section
variable {c : Char} {cs word rest : List Char} {e : FormulaError} {pos : Nat}

private theorem ofSign?_eq_none_iff : ofSign? c = none ↔ ∀ lexeme, (c, lexeme) ∉ signs := by
  rw [Option.eq_none_iff_forall_ne_some]
  exact forall_congr' fun lexeme => not_congr ⟨mem_signs_of_ofSign?, ofSign?_signs (c, lexeme)⟩

private theorem ofName?_eq_none_iff : ofName? (String.ofList word) = none ↔ ∀ lexeme,
    (word, lexeme) ∉ names := by
  rw [Option.eq_none_iff_forall_ne_some]
  refine forall_congr' fun lexeme => not_congr ⟨fun h => ?_, ofName?_names (word, lexeme)⟩
  have hmem := mem_names_of_ofName? h
  rwa [String.toList_ofList] at hmem

private theorem Misspelled.exists_visible (h : Misspelled pos cs e) :
    ∃ c more, cs = c :: more ∧ isWhiteSpace c = false := by
  cases h with
  | char hvisible hsign hdigit hdot hw rest => exact ⟨_, rest, rfl, hvisible⟩
  | @literal mantissa exponent rest hne hm he hbad =>
    obtain ⟨c, mantissa, rfl⟩ := List.exists_cons_of_ne_nil hne
    have hc := hm.members c (List.mem_cons_self ..)
    exact ⟨c, _, rfl, Literal.isWhiteSpace_of_isMantissaChar hc⟩
  | function hne hw hname hcall | identifier hne hw hname hcall =>
    obtain ⟨c, word, rfl⟩ := List.exists_cons_of_ne_nil hne
    have hc := hw.members c (List.mem_cons_self ..)
    exact ⟨c, _, rfl, isWhiteSpace_of_isAlphabetic hc⟩

private theorem scan_of_unknown (hw : IsRun isAlphabetic (c :: word) rest)
    (hname : ∀ lexeme, (lowercase (c :: word), lexeme) ∉ names) (pos : Nat) :
    scan pos c (word ++ rest) = .error (.unknownName (String.ofList (lowercase (c :: word))) pos rest) := by
  have hc := hw.members c (List.mem_cons_self ..)
  have hword : wordAt (c :: (word ++ rest)) = c :: word := hw.takeWhile_eq
  have hn : ¬ Literal.isMantissaChar c = true := by
    rw [isMantissaChar_of_isAlphabetic hc]
    exact Bool.false_ne_true
  have hrest : ((c :: word) ++ rest).drop (c :: word).length = rest := List.drop_left
  rw [List.cons_append] at hrest
  simp only [scan, ofSign?_of_isAlphabetic hc, if_neg hn, if_pos hc, hword, ofName?_eq_none_iff.mpr hname,
    hrest]

/-- Where no lexeme is spelled, none is found. -/
theorem Misspelled.scan_eq (h : Misspelled pos (c :: cs) e) : scan pos c cs = .error e := by
  generalize hds : c :: cs = ds at h
  cases h with
  | char hvisible hsign hdigit hdot hw rest =>
    obtain ⟨rfl, rfl⟩ := List.cons.inj hds
    have hm : Literal.isMantissaChar c = false := Literal.isMantissaChar_eq_false_iff.mpr ⟨hdigit, hdot⟩
    simp only [scan, ofSign?_eq_none_iff.mpr hsign, hm, hw, Bool.false_eq_true, if_false]
  | @literal mantissa exponent rest hne hm he hbad =>
    have hscan := Literal.scan_append hm he
    have hvalue : (⟨mantissa, exponent⟩ : Literal).value? = none := Literal.value?_eq_none_iff.mpr hbad
    obtain ⟨first, mantissa, rfl⟩ := List.exists_cons_of_ne_nil hne
    obtain ⟨rfl, rfl⟩ := List.cons.inj hds
    change scan pos c (mantissa ++ (exponent ++ rest)) = _
    have hc : Literal.isMantissaChar c = true := hm.members c (List.mem_cons_self ..)
    rw [List.cons_append] at hscan
    simp only [scan, ofSign?_of_isMantissaChar hc, if_pos hc, hscan, hvalue, Literal.chars]
  | function hne hw hname hcall =>
    obtain ⟨first, word, rfl⟩ := List.exists_cons_of_ne_nil hne
    obtain ⟨rfl, rfl⟩ := List.cons.inj hds
    rw [List.append_eq, scan_of_unknown hw hname, FormulaError.unknownName,
      if_pos (nextVisible?_eq_openParen_iff.mpr hcall)]
  | identifier hne hw hname hcall =>
    obtain ⟨first, word, rfl⟩ := List.exists_cons_of_ne_nil hne
    obtain ⟨rfl, rfl⟩ := List.cons.inj hds
    rw [List.append_eq, scan_of_unknown hw hname, FormulaError.unknownName,
      if_neg (mt nextVisible?_eq_openParen_iff.mp hcall)]

private theorem Misspelled.unknown (hne : word ≠ []) (hw : IsRun isAlphabetic word rest)
    (hname : ∀ lexeme, (lowercase word, lexeme) ∉ names) (pos : Nat) :
    Misspelled pos (word ++ rest) (.unknownName (String.ofList (lowercase word)) pos rest) := by
  rw [FormulaError.unknownName]
  split <;> rename_i hcall
  · exact .function hne hw hname (nextVisible?_eq_openParen_iff.mp hcall)
  · exact .identifier hne hw hname (mt nextVisible?_eq_openParen_iff.mpr hcall)

private theorem misspelled_of_scan (hvisible : isWhiteSpace c = false) (h : scan pos c cs = .error e) :
    Misspelled pos (c :: cs) e := by
  unfold scan at h
  cases hs : ofSign? c with
  | some sign =>
    simp only [hs] at h
    cases h
  | none =>
    simp only [hs] at h
    by_cases hm : Literal.isMantissaChar c = true
    · rw [if_pos hm] at h
      cases hv : (Literal.scan (c :: cs)).value? with
      | some v =>
        simp only [hv] at h
        cases h
      | none =>
        simp only [hv, Except.error.injEq] at h
        subst h
        obtain ⟨rest, heq, hrun, he⟩ := Literal.exists_scan (c :: cs)
        have hne : (Literal.scan (c :: cs)).mantissa ≠ [] := by
          simp [Literal.scan, List.takeWhile_cons_of_pos hm]
        have hmisspelled : Misspelled pos _ _ := .literal hne hrun he (Literal.value?_eq_none_iff.mp hv)
        rwa [← heq] at hmisspelled
    · rw [if_neg hm] at h
      by_cases ha : isAlphabetic c = true
      · rw [if_pos ha] at h
        cases hn : ofName? (String.ofList (lowercase (wordAt (c :: cs)))) with
        | some name =>
          simp only [hn] at h
          cases h
        | none =>
          simp only [hn, Except.error.injEq] at h
          subst h
          have hrun := isRun_takeWhile isAlphabetic (c :: cs)
          have hne : wordAt (c :: cs) ≠ [] := by simp [wordAt, List.takeWhile_cons_of_pos ha]
          have hname := ofName?_eq_none_iff.mp hn
          have heq : wordAt (c :: cs) ++ (c :: cs).dropWhile isAlphabetic = c :: cs :=
            List.takeWhile_append_dropWhile
          have hdrop : (c :: cs).drop (wordAt (c :: cs)).length = (c :: cs).dropWhile isAlphabetic :=
            (congrArg _ heq.symm).trans (List.drop_left ..)
          have hmisspelled := Misspelled.unknown hne hrun hname pos
          rwa [heq, ← hdrop] at hmisspelled
      · rw [if_neg ha, Except.error.injEq] at h
        subst h
        obtain ⟨hdigit, hdot⟩ := Literal.isMantissaChar_eq_false_iff.mp (Bool.eq_false_iff.mpr hm)
        exact .char hvisible (ofSign?_eq_none_iff.mp hs) hdigit hdot (Bool.eq_false_iff.mpr ha) cs

end
end Lexeme

namespace Token

/-- Scanning from the left passes over `before`, taking the tokens, and stands in front of `rest`. -/
inductive Reaches : (before rest : List Char) → List Token → Prop
  | start (text : List Char) : Reaches [] text []
  | blank {before gap rest : List Char} {ts : List Token} (h : Reaches before (gap ++ rest) ts)
      (hgap : IsBlank gap) : Reaches (before ++ gap) rest ts
  | lexeme {before word rest : List Char} {lexeme : Lexeme} {ts : List Token}
      (h : Reaches before (word ++ rest) ts) (hword : lexeme.Spells word rest) :
      Reaches (before ++ word) rest (ts ++ [⟨lexeme, before.length⟩])

section
variable {before rest rest' cs : List Char} {ts : List Token} {e : FormulaError} {pos : Nat}

private theorem scanFrom_of_misspelled (h : Lexeme.Misspelled pos cs e) :
    scanFrom pos 0 cs = .error e := by
  obtain ⟨c, cs, rfl, hvisible⟩ := h.exists_visible
  rw [scanFrom, if_neg (by simp [hvisible]), h.scan_eq]
  rfl

/-- Scanning fails at once, or behind white space or a lexeme. -/
theorem scanFrom_error_cases (h : scanFrom pos 0 cs = .error e) : Lexeme.Misspelled pos cs e ∨
    ∃ word rest, cs = word ++ rest ∧ word ≠ [] ∧ (IsBlank word ∨ ∃ lexeme : Lexeme, lexeme.Spells word rest) ∧
      scanFrom (pos + word.length) 0 rest = .error e := by
  cases cs with
  | nil => cases h
  | cons c cs =>
    by_cases hc : isWhiteSpace c = true
    · rw [scanFrom, if_pos hc] at h
      exact .inr ⟨[c], cs, rfl, List.cons_ne_nil _ _, .inl (List.forall_mem_singleton.mpr hc), h⟩
    · cases hscan : Lexeme.scan pos c cs with
      | error cause =>
        rw [scanFrom, if_neg hc, hscan] at h
        cases h
        exact .inl (Lexeme.misspelled_of_scan (Bool.eq_false_iff.mpr hc) hscan)
      | ok x =>
        obtain ⟨lexeme, length⟩ := x
        obtain ⟨word, rest, heq, -, hword⟩ := Lexeme.spells_of_scan hscan
        rw [heq, scanFrom_spelled_append hword] at h
        refine .inr ⟨word, rest, heq, hword.ne_nil, .inr ⟨lexeme, hword⟩, ?_⟩
        cases hlater : scanFrom (pos + word.length) 0 rest with
        | error cause =>
          rw [hlater] at h
          exact congrArg Except.error (Except.error.inj h)
        | ok us =>
          rw [hlater] at h
          cases h

private theorem Reaches.scan_eq (h : Reaches before rest ts) :
    scan (before ++ rest) = (scanFrom before.length 0 rest).map (ts ++ ·) := by
  induction h with
  | start text =>
    change scanFrom 0 0 text = (scanFrom 0 0 text).map fun ts => ts
    cases scanFrom 0 0 text <;> rfl
  | blank h hgap ih =>
    rw [List.append_assoc, ih, scanFrom_blank_append hgap, List.length_append]
  | @lexeme before word rest lexeme ts h hword ih =>
    rw [List.append_assoc, ih, scanFrom_spelled_append hword, List.length_append]
    cases scanFrom (before.length + word.length) 0 rest with
    | error e => rfl
    | ok us => simp [Except.map]

private theorem Reaches.of_visibleHead (h : Reaches before rest ts)
    (hrest : visibleHead rest' <+: rest) :
    Reaches before rest' ts := by
  induction h generalizing rest' with
  | start text => exact .start rest'
  | @blank before gap rest ts h hgap ih => exact .blank (ih (visibleHead_append hrest gap)) hgap
  | @lexeme before word rest lexeme ts h hword ih =>
    exact .lexeme (ih (visibleHead_append hrest word)) (hword.of_visibleHead hrest)

private theorem Reaches.scan_before (h : Reaches before rest ts) : scan before = .ok ts := by
  have halone : Reaches before [] ts := h.of_visibleHead List.nil_prefix
  have hscan := halone.scan_eq
  rw [List.append_nil] at hscan
  rw [hscan, scanFrom]
  exact congrArg Except.ok (List.append_nil ts)

private theorem Reaches.of_scanFrom_error (h : Reaches before rest ts)
    (hscan : scanFrom before.length 0 rest = .error e) :
    ∃ before' rest' us, before ++ rest = before' ++ rest' ∧ Reaches before' rest' us ∧
      Lexeme.Misspelled before'.length rest' e := by
  -- on the length of the rest, since a lexeme may take several characters at once
  induction hn : rest.length using Nat.strong_induction_on generalizing before rest ts with
  | _ n ih =>
    rcases scanFrom_error_cases hscan with hmisspelled | ⟨word, rest', rfl, hne, hword, hlater⟩
    · exact ⟨before, rest, ts, rfl, h, hmisspelled⟩
    · have hshorter : rest'.length < n := by
        have := List.length_pos_iff.mpr hne
        rw [List.length_append] at hn
        omega
      rw [← List.length_append] at hlater
      rw [← List.append_assoc]
      rcases hword with hgap | ⟨lexeme, hword⟩
      · exact ih _ hshorter (.blank h hgap) hlater rfl
      · exact ih _ hshorter (.lexeme h hword) hlater rfl

end

/-- A text is refused with the place and the kind of the leftmost thing that is no lexeme: the text in front of
it can be scanned alone, and what stands there is visible. Where scanning reaches such a place, it fails. -/
theorem scan_fails_where_misspelled (text : List Char) :
    (∀ e, scan text = .error e → ∃ before rest ts, text = before ++ rest ∧ Reaches before rest ts ∧
      scan before = .ok ts ∧ (∃ c ∈ rest.head?, isWhiteSpace c = false) ∧
      Lexeme.Misspelled before.length rest e) ∧
    ∀ before rest ts e, text = before ++ rest → Reaches before rest ts →
      Lexeme.Misspelled before.length rest e → scan text = .error e := by
  refine ⟨fun e h => ?_, ?_⟩
  · obtain ⟨before, rest, ts, htext, hreaches, hmisspelled⟩ := (Reaches.start text).of_scanFrom_error h
    refine ⟨before, rest, ts, htext, hreaches, hreaches.scan_before, ?_, hmisspelled⟩
    obtain ⟨c, more, rfl, hvisible⟩ := hmisspelled.exists_visible
    exact ⟨c, rfl, hvisible⟩
  · rintro before rest ts e rfl hreaches hmisspelled
    rw [hreaches.scan_eq, scanFrom_of_misspelled hmisspelled]
    rfl

/-- An unknown name behind a sign, in front of a parenthesis with white space between. -/
theorem scan_fails_at_unknown_function :
    scan ['-', ' ', 'f', 'o', 'o', ' ', '('] = .error (.unknownFunction "foo" 2) := by
  have hreaches : Reaches ['-', ' '] ['f', 'o', 'o', ' ', '('] [⟨.minus, 0⟩] :=
    .blank (.lexeme (.start _) (.sign (by simp [Lexeme.signs]) _)) isBlank_space
  have hword : IsRun isAlphabetic ['f', 'o', 'o'] [' ', '('] :=
    isRun_of_all (by decide +kernel) (by decide +kernel)
  have hname : ∀ lexeme, (lowercase ['f', 'o', 'o'], lexeme) ∉ Lexeme.names :=
    Lexeme.ofName?_eq_none_iff.mp (by decide +kernel)
  have hmisspelled : Lexeme.Misspelled 2 ['f', 'o', 'o', ' ', '('] _ :=
    .function (List.cons_ne_nil _ _) hword hname ⟨[' '], [], rfl, isBlank_space⟩
  exact (scan_fails_where_misspelled _).2 _ _ _ _ rfl hreaches hmisspelled

end Token
end FormulaRoots
