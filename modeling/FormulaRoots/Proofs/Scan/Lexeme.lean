import FormulaRoots.Formula.ClosedForm
import FormulaRoots.Formula.Scan
import FormulaRoots.Proofs.Scan.Literal

/-! One lexeme at a time: what can be scanned at the head of a text, and that the characters taken are
the same lexeme when they stand alone in lower case. -/
namespace FormulaRoots
open Unicode

namespace Lexeme

def names : List (List Char × Lexeme) :=
  [(['x'], .variable), (['e'], constant .e), (['p', 'i'], constant .pi),
   (['s', 'i', 'n'], function .sin), (['c', 'o', 's'], function .cos),
   (['t', 'a', 'n'], function .tan), (['s', 'q', 'r', 't'], function .sqrt),
   (['l', 'o', 'g'], function .ln), (['l', 'n'], function .ln), (['e', 'x', 'p'], function .exp)]

theorem mem_names_of_ofName? {name : String} {lexeme : Lexeme} (h : ofName? name = some lexeme) :
    (name.toList, lexeme) ∈ names := by
  unfold ofName? Constant.ofName? Elementary.ofName? at h
  by_cases hx : name = "x"
  · rw [if_pos hx] at h
    cases h
    subst hx
    decide
  · rw [if_neg hx] at h
    split at h
    · rename_i c hc
      split at hc <;> cases hc <;> cases h <;> decide
    · split at h <;> cases h <;> decide

/-- No name holds a capital sigma. -/
theorem ofName?_of_sigma_mem {word : List Char} (h : 'Σ' ∈ word) :
    ofName? (String.ofList (lowercase word)) = none := by
  rw [Option.eq_none_iff_forall_ne_some]
  intro lexeme hname
  have hmem := mem_names_of_ofName? hname
  rw [String.toList_ofList] at hmem
  have hnames : ∀ entry ∈ names, 'σ' ∉ entry.1 ∧ 'ς' ∉ entry.1 := by decide
  obtain ⟨hmid, hfinal⟩ := hnames _ hmem
  exact (sigma_mem_lowerFrom h []).elim hmid hfinal

def signs : List (Char × Lexeme) :=
  [('+', plus), ('-', minus), ('*', star), ('/', slash), ('^', caret), ('(', openParen),
   (')', closeParen)]

theorem mem_signs_of_ofSign? {c : Char} {lexeme : Lexeme} (h : ofSign? c = some lexeme) :
    (c, lexeme) ∈ signs := by
  unfold ofSign? at h
  split at h <;> cases h <;> decide

/-- No literal begins with a sign. -/
theorem ofSign?_of_isMantissaChar {c : Char} (h : Literal.isMantissaChar c = true) :
    ofSign? c = none := by
  cases hs : ofSign? c with
  | none => rfl
  | some lexeme =>
    have hall : ∀ entry ∈ signs, Literal.isMantissaChar entry.1 = false := by decide
    rw [hall _ (mem_signs_of_ofSign? hs)] at h
    cases h

/-- What is scanned at the head of a text is a sign, a literal or a name. -/
theorem scan_cases {pos : Nat} {c : Char} {cs : List Char} {lexeme : Lexeme} {length : Nat}
    (h : scan pos c cs = .ok (lexeme, length)) :
    (ofSign? c = some lexeme ∧ length = 1) ∨
    (Literal.isMantissaChar c = true ∧ length = (Literal.scan (c :: cs)).chars.length ∧
      ∃ v, (Literal.scan (c :: cs)).value? = some v ∧ lexeme = number v) ∨
    (isAlphabetic c = true ∧ length = (wordAt (c :: cs)).length ∧
      ofName? (String.ofList (lowercase (wordAt (c :: cs)))) = some lexeme) := by
  unfold scan at h
  cases hs : ofSign? c with
  | some sign =>
    simp only [hs, Except.ok.injEq, Prod.mk.injEq] at h
    obtain ⟨rfl, rfl⟩ := h
    exact .inl ⟨rfl, rfl⟩
  | none =>
    simp only [hs] at h
    by_cases hm : Literal.isMantissaChar c = true
    · rw [if_pos hm] at h
      cases hv : (Literal.scan (c :: cs)).value? with
      | none =>
        simp only [hv] at h
        cases h
      | some v =>
        simp only [hv, Except.ok.injEq, Prod.mk.injEq] at h
        obtain ⟨rfl, rfl⟩ := h
        exact .inr (.inl ⟨hm, rfl, v, rfl, rfl⟩)
    · rw [if_neg hm] at h
      by_cases ha : isAlphabetic c = true
      · rw [if_pos ha] at h
        cases hn : ofName? (String.ofList (lowercase (wordAt (c :: cs)))) with
        | none =>
          simp only [hn] at h
          cases h
        | some name =>
          simp only [hn, Except.ok.injEq, Prod.mk.injEq] at h
          obtain ⟨rfl, rfl⟩ := h
          exact .inr (.inr ⟨ha, rfl, rfl⟩)
      · rw [if_neg ha] at h
        cases h

def ofWord? : List Char → Option Lexeme
  | [] => none
  | c :: cs =>
    match scan 0 c cs with
    | .ok (lexeme, length) => if length = cs.length + 1 then some lexeme else none
    | .error _ => none

private theorem ofWord?_of_scan {c : Char} {cs : List Char} {lexeme : Lexeme}
    (h : scan 0 c cs = .ok (lexeme, cs.length + 1)) : ofWord? (c :: cs) = some lexeme := by
  simp only [ofWord?, h, if_pos]

private theorem ofWord?_names : ∀ entry ∈ names, ofWord? entry.1 = some entry.2 := by
  decide +kernel

end Lexeme

namespace ClosedForm

theorem plain_append (cs ds : List Char) : plain (cs ++ ds) = plain cs ++ plain ds := by
  simp only [plain, List.filter_append, List.flatMap_append]

private theorem plain_of_visible {cs : List Char} (h : ∀ c ∈ cs, isWhiteSpace c = false) :
    plain cs = cs.flatMap lowerChar := by
  have hf : cs.filter (fun c => !isWhiteSpace c) = cs :=
    List.filter_eq_self.mpr fun c hc => by rw [h c hc]; rfl
  rw [plain, hf]

end ClosedForm

namespace Lexeme
open ClosedForm

private theorem ofWord?_plain_signs : ∀ entry ∈ signs, ofWord? (plain [entry.1]) = some entry.2 := by
  decide +kernel

private theorem ofWord?_plain_name {word : List Char} {lexeme : Lexeme}
    (hw : ∀ c ∈ word, isAlphabetic c = true)
    (h : ofName? (String.ofList (lowercase word)) = some lexeme) :
    ofWord? (plain word) = some lexeme := by
  have hmem := mem_names_of_ofName? h
  rw [String.toList_ofList] at hmem
  -- a final sigma is the one thing that sets the lower case of a word apart
  have hsigma : 'Σ' ∉ word := by
    intro hs
    rw [ofName?_of_sigma_mem hs] at h
    cases h
  have hplain : plain word = lowercase word := by
    rw [plain_of_visible fun c hc => isWhiteSpace_of_isAlphabetic (hw c hc)]
    exact (lowerFrom_eq_flatMap hsigma []).symm
  have hname := ofWord?_names _ hmem
  rwa [← hplain] at hname

private theorem ofWord?_plain_literal {c : Char} {cs : List Char} {v : Float}
    (hc : Literal.isMantissaChar c = true) (hv : (Literal.scan (c :: cs)).value? = some v) :
    ofWord? (plain (Literal.scan (c :: cs)).chars) = some (number v) := by
  let l := (Literal.scan (c :: cs)).lower
  have hmantissa : ∀ d ∈ (Literal.scan (c :: cs)).mantissa, Literal.isMantissaChar d = true :=
    fun d hd => Literal.isMantissaChar_of_mem_scan hd
  have hexponent : Literal.IsExponent (Literal.scan (c :: cs)).exponent :=
    Literal.isExponent_exponentAt _
  have hplain : plain (Literal.scan (c :: cs)).chars = l.chars := by
    rw [Literal.chars_lower hmantissa]
    exact plain_of_visible fun d hd => Literal.isWhiteSpace_of_mem_chars hd
  obtain ⟨rest, hrest⟩ : ∃ rest, l.chars = c :: rest :=
    ⟨_, by simp only [l, Literal.lower, Literal.chars, Literal.scan, List.takeWhile_cons_of_pos hc]; rfl⟩
  have hscan : Literal.scan (c :: rest) = l := by
    rw [← hrest]
    exact Literal.scan_chars hmantissa hexponent.lower
  have hvalue : l.value? = some v := (Literal.value?_lower hexponent).trans hv
  rw [hplain, hrest]
  refine ofWord?_of_scan ?_
  simp only [scan, ofSign?_of_isMantissaChar hc, if_pos hc, hscan, hvalue, hrest, List.length_cons]

/-- The characters that a lexeme takes spell it also in lower case and without anything behind
them. -/
theorem ofWord?_plain_take {pos : Nat} {c : Char} {cs : List Char} {lexeme : Lexeme} {length : Nat}
    (h : scan pos c cs = .ok (lexeme, length)) :
    0 < length ∧ ofWord? (plain ((c :: cs).take length)) = some lexeme := by
  rcases scan_cases h with ⟨hs, rfl⟩ | ⟨hm, rfl, v, hv, rfl⟩ | ⟨ha, rfl, hn⟩
  · refine ⟨Nat.one_pos, ?_⟩
    rw [List.take_succ_cons, List.take_zero]
    exact ofWord?_plain_signs (c, lexeme) (mem_signs_of_ofSign? hs)
  · have htake := List.prefix_iff_eq_take.mp (Literal.chars_scan_prefix (c :: cs))
    refine ⟨?_, ?_⟩
    · simp only [Literal.chars, Literal.scan, List.takeWhile_cons_of_pos hm, List.length_append,
        List.length_cons]
      omega
    · rw [← htake]
      exact ofWord?_plain_literal hm hv
  · have htake := List.prefix_iff_eq_take.mp (List.takeWhile_prefix isAlphabetic (l := c :: cs))
    refine ⟨?_, ?_⟩
    · simp only [wordAt, List.takeWhile_cons_of_pos ha, List.length_cons]
      omega
    · unfold wordAt at hn ⊢
      rw [← htake]
      exact ofWord?_plain_name (fun d hd => List.mem_takeWhile_imp hd) hn

end Lexeme

/-- One step of scanning, for texts that can be scanned. -/
theorem Token.toOption_scanFrom_cons (pos : Nat) (c : Char) (cs : List Char) :
    (scanFrom pos 0 (c :: cs)).toOption =
      if isWhiteSpace c then (scanFrom (pos + 1) 0 cs).toOption
      else (Lexeme.scan pos c cs).toOption.bind fun x =>
        (scanFrom (pos + 1) (x.2 - 1) cs).toOption.map (⟨x.1, pos⟩ :: ·) := by
  rw [scanFrom]
  split
  · rfl
  · cases Lexeme.scan pos c cs with
    | error e => rfl
    | ok x =>
      simp only [bind, Except.bind]
      change _ = (scanFrom (pos + 1) (x.2 - 1) cs).toOption.map (⟨x.1, pos⟩ :: ·)
      cases scanFrom (pos + 1) (x.2 - 1) cs <;> rfl

/-- Scanning passes over white space, or takes a lexeme and goes on behind it. -/
theorem Token.scanFrom_cases {pos : Nat} {c : Char} {cs : List Char} {ts : List Token}
    (h : scanFrom pos 0 (c :: cs) = .ok ts) :
    (isWhiteSpace c = true ∧ scanFrom (pos + 1) 0 cs = .ok ts) ∨
    (isWhiteSpace c = false ∧ ∃ lexeme length rest, Lexeme.scan pos c cs = .ok (lexeme, length) ∧
      0 < length ∧ scanFrom (pos + length) 0 ((c :: cs).drop length) = .ok rest ∧
      ts = ⟨lexeme, pos⟩ :: rest) := by
  rw [scanFrom] at h
  by_cases hw : isWhiteSpace c = true
  · rw [if_pos hw] at h
    exact .inl ⟨hw, h⟩
  · rw [if_neg hw] at h
    refine .inr ⟨Bool.eq_false_iff.mpr hw, ?_⟩
    cases hscan : Lexeme.scan pos c cs with
    | error e =>
      rw [hscan] at h
      cases h
    | ok x =>
      obtain ⟨lexeme, length⟩ := x
      have hpos := (Lexeme.ofWord?_plain_take hscan).1
      simp only [hscan, bind, Except.bind] at h
      rw [scanFrom_skip] at h
      cases hrest : scanFrom (pos + 1 + (length - 1)) 0 (cs.drop (length - 1)) with
      | error e =>
        rw [hrest] at h
        cases h
      | ok rest =>
        rw [hrest] at h
        cases h
        obtain ⟨n, rfl⟩ := Nat.exists_eq_succ_of_ne_zero (Nat.ne_of_gt hpos)
        refine ⟨lexeme, n + 1, rest, rfl, hpos, ?_, rfl⟩
        rw [List.drop_succ_cons, ← hrest]
        congr 1
        omega

end FormulaRoots
