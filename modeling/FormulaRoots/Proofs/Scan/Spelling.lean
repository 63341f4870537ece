import FormulaRoots.Proofs.Decimal.Positional
import FormulaRoots.Proofs.Scan.Lexeme

/-! How lexemes are spelled, said without the scanner: which characters they are and what may follow them.
The scanner finds a lexeme at the head of a text if and only if the text begins with a spelling of it. -/
namespace FormulaRoots
open Binary64 Unicode

/-- Characters of one class in front of `rest`, taken as far as they go. -/
structure IsRun (p : Char → Bool) (word rest : List Char) : Prop where
  members : ∀ c ∈ word, p c = true
  stops : ∀ c ∈ rest.head?, p c = false

section
variable {p : Char → Bool} {word rest : List Char}

theorem isRun_takeWhile (p : Char → Bool) (cs : List Char) :
    IsRun p (cs.takeWhile p) (cs.dropWhile p) where
  members c hc := List.mem_takeWhile_imp hc
  stops c hc := by
    have h := List.head?_dropWhile_not p cs
    rw [Option.mem_def] at hc
    rwa [hc] at h

/-- A run by its tests. -/
theorem isRun_of_all (hmembers : word.all p = true) (hstops : rest.head?.all (fun c => !p c) = true) :
    IsRun p word rest where
  members := List.all_eq_true.mp hmembers
  stops c hc := by
    obtain ⟨more, rfl⟩ := List.head?_eq_some_iff.mp hc
    simpa using hstops

theorem IsRun.takeWhile_eq (h : IsRun p word rest) : (word ++ rest).takeWhile p = word := by
  rw [List.takeWhile_append_of_pos h.members]
  cases rest with
  | nil => exact List.append_nil word
  | cons c rest =>
    have hc := h.stops c rfl
    rw [List.takeWhile_cons_of_neg (by simp [hc]), List.append_nil]

private theorem IsRun.dropWhile_eq (h : IsRun p word rest) : (word ++ rest).dropWhile p = rest := by
  rw [List.dropWhile_append_of_pos h.members]
  cases rest with
  | nil => rfl
  | cons c rest =>
    have hc := h.stops c rfl
    exact List.dropWhile_cons_of_neg (by simp [hc])

end

namespace Literal

def IsOptionalSign (s : List Char) : Prop :=
  s = [] ∨ s = ['+'] ∨ s = ['-']

def BeginsExponent (cs : List Char) : Prop :=
  ∃ m s d more, cs = m :: (s ++ d :: more) ∧ (m = 'e' ∨ m = 'E') ∧ IsOptionalSign s ∧ d.isDigit = true

/-- The exponent in front of `rest`. It takes all digits that follow its marker and its sign, and it is
missing only where no digit follows them. -/
inductive IsExponentOf : (exponent rest : List Char) → Prop
  | none {rest : List Char} (h : ¬ BeginsExponent rest) : IsExponentOf [] rest
  | some {m : Char} {s ds rest : List Char} (hm : m = 'e' ∨ m = 'E') (hs : IsOptionalSign s)
      (hne : ds ≠ []) (hds : IsRun Char.isDigit ds rest) : IsExponentOf (m :: (s ++ ds)) rest

def power : (exponent : List Char) → Int
  | [] => 0
  | _ :: '-' :: ds => -Nat.ofDigitChars 10 ds 0
  | _ :: '+' :: ds => Nat.ofDigitChars 10 ds 0
  | _ :: ds => Nat.ofDigitChars 10 ds 0

/-- The double nearest to the number that a literal spells. Each digit behind the dot lowers the power of ten
by one. -/
def nearest (mantissa exponent : List Char) : Float :=
  let digits := Nat.ofDigitChars 10 (mantissa.filter (· != '.')) 0
  let place := power exponent - (mantissa.dropWhile (· != '.')).tail.length
  nearestDouble (digits * 10 ^ place.toNat * unit) (10 ^ (-place).toNat)

private theorem isOptionalSign_iff {s : List Char} :
    IsOptionalSign s ↔ s = [] ∨ ∃ c, isSign c = true ∧ s = [c] := by
  simp only [IsOptionalSign, isSign_iff, or_and_right, exists_or, exists_eq_left]

private theorem isSign_of_isDigit {c : Char} (h : c.isDigit = true) : isSign c = false := by
  cases hs : isSign c with
  | false => rfl
  | true => rcases isSign_iff.mp hs with rfl | rfl <;> exact absurd h (by decide)

private theorem signedDigits_append {s ds rest : List Char} (hs : IsOptionalSign s) (hne : ds ≠ [])
    (hds : IsRun Char.isDigit ds rest) : signedDigits (s ++ (ds ++ rest)) = s ++ ds := by
  rcases isOptionalSign_iff.mp hs with rfl | ⟨c, hc, rfl⟩
  · obtain ⟨d, ds, rfl⟩ := List.exists_cons_of_ne_nil hne
    have hd := isSign_of_isDigit (hds.members d (List.mem_cons_self ..))
    rw [List.nil_append, List.nil_append, List.cons_append, signedDigits, hd]
    exact hds.takeWhile_eq
  · rw [List.singleton_append, signedDigits, if_pos hc, hds.takeWhile_eq, List.singleton_append]

private theorem exists_signedDigits (cs : List Char) : ∃ s ds rest, cs = s ++ (ds ++ rest) ∧
    signedDigits cs = s ++ ds ∧ IsOptionalSign s ∧ IsRun Char.isDigit ds rest := by
  cases cs with
  | nil => exact ⟨[], [], [], rfl, rfl, .inl rfl, ⟨nofun, nofun⟩⟩
  | cons c cs =>
    by_cases hc : isSign c = true
    · refine ⟨[c], cs.takeWhile Char.isDigit, cs.dropWhile Char.isDigit, ?_, ?_,
        isOptionalSign_iff.mpr (.inr ⟨c, hc, rfl⟩), isRun_takeWhile ..⟩
      · rw [List.takeWhile_append_dropWhile, List.singleton_append]
      · rw [signedDigits, if_pos hc, List.singleton_append]
    · refine ⟨[], (c :: cs).takeWhile Char.isDigit, (c :: cs).dropWhile Char.isDigit, ?_, ?_, .inl rfl,
        isRun_takeWhile ..⟩
      · rw [List.takeWhile_append_dropWhile, List.nil_append]
      · rw [signedDigits, if_neg hc, List.nil_append]

private theorem any_isDigit_of_isOptionalSign {s : List Char} (hs : IsOptionalSign s) :
    s.any Char.isDigit = false := by
  rcases isOptionalSign_iff.mp hs with rfl | ⟨c, hc, rfl⟩
  · rfl
  · rcases isSign_iff.mp hc with rfl | rfl <;> rfl

private theorem exponentAt_of_digits {m : Char} {s ds rest : List Char} (hm : m = 'e' ∨ m = 'E')
    (hs : IsOptionalSign s) (hne : ds ≠ []) (hds : IsRun Char.isDigit ds rest) :
    exponentAt (m :: (s ++ (ds ++ rest))) = m :: (s ++ ds) := by
  have hany : (s ++ ds).any Char.isDigit = true := by
    obtain ⟨d, hd⟩ := List.exists_mem_of_ne_nil ds hne
    exact List.any_eq_true.mpr ⟨d, List.mem_append_right s hd, hds.members d hd⟩
  rw [exponentAt, signedDigits_append hs hne hds, isMarker_iff.mpr hm, hany]
  rfl

private theorem BeginsExponent.exponentAt_ne_nil {cs : List Char} (h : BeginsExponent cs) :
    exponentAt cs ≠ [] := by
  obtain ⟨m, s, d, more, rfl, hm, hs, hd⟩ := h
  have hrun := isRun_takeWhile Char.isDigit more
  have hds : IsRun Char.isDigit (d :: more.takeWhile Char.isDigit) (more.dropWhile Char.isDigit) :=
    ⟨List.forall_mem_cons.mpr ⟨hd, hrun.members⟩, hrun.stops⟩
  have heq := exponentAt_of_digits hm hs (by simp) hds
  rw [List.cons_append, List.takeWhile_append_dropWhile] at heq
  rw [heq]
  nofun

private theorem exists_exponentAt (cs : List Char) :
    ∃ rest, cs = exponentAt cs ++ rest ∧ IsExponentOf (exponentAt cs) rest := by
  have hnone (hnil : exponentAt cs = []) :
      ∃ rest, cs = exponentAt cs ++ rest ∧ IsExponentOf (exponentAt cs) rest := by
    rw [hnil]
    exact ⟨cs, rfl, .none fun h => h.exponentAt_ne_nil hnil⟩
  cases cs with
  | nil => exact hnone rfl
  | cons m cs =>
    obtain ⟨s, ds, rest, rfl, hsigned, hs, hds⟩ := exists_signedDigits cs
    by_cases hm : isMarker m = true
    · by_cases hne : ds = []
      · refine hnone ?_
        rw [exponentAt, hsigned, hne, List.append_nil, any_isDigit_of_isOptionalSign hs, Bool.and_false]
        rfl
      · rw [exponentAt_of_digits (isMarker_iff.mp hm) hs hne hds]
        refine ⟨rest, ?_, .some (isMarker_iff.mp hm) hs hne hds⟩
        rw [List.cons_append, List.append_assoc]
    · refine hnone ?_
      rw [exponentAt, Bool.eq_false_iff.mpr hm, Bool.false_and]
      rfl

private theorem IsExponentOf.beginsExponent {e rest : List Char} (h : IsExponentOf e rest)
    (he : e ≠ []) :
    BeginsExponent (e ++ rest) := by
  cases h with
  | none => exact absurd rfl he
  | @some m s ds _ hm hs hne hds =>
    obtain ⟨d, ds, rfl⟩ := List.exists_cons_of_ne_nil hne
    refine ⟨m, s, d, ds ++ rest, ?_, hm, hs, hds.members d (List.mem_cons_self ..)⟩
    rw [List.cons_append, List.append_assoc, List.cons_append]

private theorem IsExponentOf.exponentAt_eq {e rest : List Char} (h : IsExponentOf e rest) :
    exponentAt (e ++ rest) = e := by
  cases h with
  | none h =>
    obtain ⟨more, heq, hmore⟩ := exists_exponentAt rest
    by_contra hne
    have hbegins := hmore.beginsExponent hne
    rw [← heq] at hbegins
    exact h hbegins
  | some hm hs hne hds =>
    rw [List.cons_append, List.append_assoc]
    exact exponentAt_of_digits hm hs hne hds

/-- A literal is read as far as it goes. -/
theorem scan_append {mantissa exponent rest : List Char}
    (hm : IsRun isMantissaChar mantissa (exponent ++ rest)) (he : IsExponentOf exponent rest) :
    scan (mantissa ++ (exponent ++ rest)) = ⟨mantissa, exponent⟩ := by
  rw [scan, hm.takeWhile_eq, hm.dropWhile_eq, he.exponentAt_eq]

theorem exists_scan (cs : List Char) : ∃ rest,
    cs = (scan cs).mantissa ++ ((scan cs).exponent ++ rest) ∧
    IsRun isMantissaChar (scan cs).mantissa ((scan cs).exponent ++ rest) ∧
    IsExponentOf (scan cs).exponent rest := by
  obtain ⟨rest, heq, he⟩ := exists_exponentAt (cs.dropWhile isMantissaChar)
  have hm := isRun_takeWhile isMantissaChar cs
  rw [heq] at hm
  refine ⟨rest, ?_, hm, he⟩
  exact List.takeWhile_append_dropWhile.symm.trans (congrArg (cs.takeWhile isMantissaChar ++ ·) heq)

/-! ### The number -/

private theorem exponentValue_signed {m : Char} {s ds : List Char} (hm : m = 'e' ∨ m = 'E')
    (hs : IsOptionalSign s) (hds : ∀ c ∈ ds, c.isDigit = true) :
    exponentValue (m :: (s ++ ds)) = if s = ['-'] then -(Nat.ofDigitChars 10 ds 0 : Int)
      else Nat.ofDigitChars 10 ds 0 := by
  have hfilter : (m :: (s ++ ds)).filter Char.isDigit = ds := by
    rcases hm with rfl | rfl <;> rcases hs with rfl | rfl | rfl <;> exact List.filter_eq_self.mpr hds
  have hminus : '-' ∉ ds := fun h => absurd (hds _ h) (by decide)
  rw [exponentValue, hfilter, naturalOf_eq_ofDigitChars]
  rcases hm with rfl | rfl <;> rcases hs with rfl | rfl | rfl <;> simp [hminus]

private theorem power_signed {m : Char} {s ds : List Char} (hs : IsOptionalSign s) (hne : ds ≠ [])
    (hds : ∀ c ∈ ds, c.isDigit = true) :
    power (m :: (s ++ ds)) = if s = ['-'] then -(Nat.ofDigitChars 10 ds 0 : Int)
      else Nat.ofDigitChars 10 ds 0 := by
  rcases hs with rfl | rfl | rfl
  · obtain ⟨d, ds, rfl⟩ := List.exists_cons_of_ne_nil hne
    have hd := hds d (List.mem_cons_self ..)
    have hplus : d ≠ '+' := fun h => absurd (h ▸ hd) (by decide)
    have hminus : d ≠ '-' := fun h => absurd (h ▸ hd) (by decide)
    simp [power, hplus, hminus]
  · rfl
  · rfl

private theorem exponentValue_eq_power {exponent rest : List Char} (h : IsExponentOf exponent rest) :
    exponentValue exponent = power exponent := by
  cases h with
  | none => rfl
  | some hm hs hne hds => rw [exponentValue_signed hm hs hds.members, power_signed hs hne hds.members]

/-- A literal is read as the double nearest to it. -/
theorem toFloat_toDecimal {mantissa exponent rest : List Char}
    (hm : ∀ c ∈ mantissa, isMantissaChar c = true) (he : IsExponentOf exponent rest) :
    (toDecimal ⟨mantissa, exponent⟩).toFloat = nearest mantissa exponent := by
  have hdigits : mantissa.filter Char.isDigit = mantissa.filter (· != '.') := by
    refine List.filter_congr fun c hc => ?_
    rcases Bool.or_eq_true_iff.mp (hm c hc) with hdigit | hdot
    · rw [hdigit, ne_dot_of_isDigit hdigit]
    · rw [eq_of_beq hdot]
      rfl
  rw [Decimal.toFloat_eq_nearestDouble]
  simp only [toDecimal, nearest, hdigits, naturalOf_eq_ofDigitChars, exponentValue_eq_power he, List.drop_one]

end Literal

namespace Lexeme

/-- The characters `word` in front of `rest` spell a lexeme: one sign; digits and at most one dot with the
exponent behind them; or a name in any case. Digits, dots and letters are taken as far as they go. -/
inductive Spells : (word rest : List Char) → Lexeme → Prop
  | sign {c : Char} {lexeme : Lexeme} (h : (c, lexeme) ∈ signs) (rest : List Char) :
      Spells [c] rest lexeme
  | literal {mantissa exponent rest : List Char}
      (hm : IsRun (fun c => c.isDigit || c == '.') mantissa (exponent ++ rest))
      (hdigit : ∃ c ∈ mantissa, c.isDigit = true) (hdots : mantissa.count '.' ≤ 1)
      (he : Literal.IsExponentOf exponent rest) :
      Spells (mantissa ++ exponent) rest (number (Literal.nearest mantissa exponent))
  | name {word rest : List Char} {lexeme : Lexeme} (hw : IsRun isAlphabetic word rest)
      (h : (lowercase word, lexeme) ∈ names) : Spells word rest lexeme

theorem ofSign?_signs : ∀ entry ∈ signs, ofSign? entry.1 = some entry.2 := by decide

theorem ofName?_names :
    ∀ entry ∈ names, ofName? (String.ofList entry.1) = some entry.2 := by decide

private theorem isWhiteSpace_signs : ∀ entry ∈ signs, isWhiteSpace entry.1 = false := by decide

private theorem isAlphabetic_signs : ∀ entry ∈ signs, isAlphabetic entry.1 = false := by decide +kernel

/-- No letter begins a literal. -/
theorem isMantissaChar_of_isAlphabetic {c : Char} (h : isAlphabetic c = true) :
    Literal.isMantissaChar c = false := by
  cases hm : Literal.isMantissaChar c with
  | false => rfl
  | true =>
    have hbounds := Literal.isMantissaChar_bounds hm
    have hdisjoint := Ranges.has_eq_false_of_disjoint alphabetic [(0x2B, 0x39)] (by decide +kernel) h
    simp only [Ranges.has, List.any_cons, List.any_nil, Bool.or_false, Bool.and_eq_false_iff,
      decide_eq_false_iff_not] at hdisjoint
    omega

theorem ofSign?_of_isAlphabetic {c : Char} (h : isAlphabetic c = true) : ofSign? c = none := by
  cases hs : ofSign? c with
  | none => rfl
  | some lexeme =>
    rw [isAlphabetic_signs _ (mem_signs_of_ofSign? hs)] at h
    cases h

section
variable {c : Char} {word rest : List Char} {lexeme : Lexeme} {pos : Nat}

theorem Spells.ne_nil (h : Spells word rest lexeme) : word ≠ [] := by
  cases h with
  | sign => nofun
  | literal hm hdigit hdots he =>
    obtain ⟨c, hc, -⟩ := hdigit
    exact List.append_ne_nil_of_left_ne_nil (List.ne_nil_of_mem hc) _
  | name hw h =>
    rintro rfl
    have hnames : ∀ entry ∈ names, entry.1 ≠ [] := by decide
    exact hnames _ h rfl

/-- No lexeme holds white space. -/
theorem Spells.isWhiteSpace_eq_false (h : Spells word rest lexeme) :
    ∀ c ∈ word, isWhiteSpace c = false := by
  cases h with
  | sign h => simpa using isWhiteSpace_signs _ h
  | @literal mantissa exponent _ hm hdigit hdots he =>
    intro c hc
    have hscan := Literal.scan_append hm he
    have hmem : c ∈ (Literal.scan (mantissa ++ (exponent ++ rest))).chars := by rwa [hscan]
    exact Literal.isWhiteSpace_of_mem_chars hmem
  | name hw h => exact fun c hc => isWhiteSpace_of_isAlphabetic (hw.members c hc)

/-- Where a lexeme is spelled, it is found. -/
theorem Spells.scan_eq (h : Spells (c :: word) rest lexeme) (pos : Nat) :
    scan pos c (word ++ rest) = .ok (lexeme, word.length + 1) := by
  generalize hcs : c :: word = cs at h
  cases h with
  | sign h =>
    obtain ⟨rfl, rfl⟩ := List.cons.inj hcs
    simp only [scan, ofSign?_signs _ h, List.length_nil]
  | @literal mantissa exponent _ hm hdigit hdots he =>
    have hscan := Literal.scan_append hm he
    obtain ⟨d, hd, hdigit⟩ := hdigit
    have hvalue : (⟨mantissa, exponent⟩ : Literal).isWellFormed = true := by
      rw [Literal.isWellFormed, List.any_eq_true.mpr ⟨d, hd, hdigit⟩, decide_eq_true hdots]
      rfl
    have hc : Literal.isMantissaChar c = true := by
      obtain ⟨first, mantissa, rfl⟩ := List.exists_cons_of_ne_nil (List.ne_nil_of_mem hd)
      obtain ⟨rfl, -⟩ := List.cons.inj hcs
      exact hm.members c (List.mem_cons_self ..)
    have hlength := congrArg List.length hcs
    rw [← List.append_assoc, ← hcs, List.cons_append] at hscan
    simp only [scan, ofSign?_of_isMantissaChar hc, if_pos hc, hscan, Literal.value?, if_pos hvalue,
      Literal.toFloat_toDecimal hm.members he]
    rw [Literal.chars, ← hlength, List.length_cons]
  | name hw h =>
    subst hcs
    have hc := hw.members c (List.mem_cons_self ..)
    have hword : wordAt (c :: (word ++ rest)) = c :: word := hw.takeWhile_eq
    have hn : ¬ Literal.isMantissaChar c = true := by
      rw [isMantissaChar_of_isAlphabetic hc]
      exact Bool.false_ne_true
    simp only [scan, ofSign?_of_isAlphabetic hc, if_neg hn, if_pos hc, hword, ofName?_names _ h,
      List.length_cons]

/-- At the head of a text no two lexemes are spelled. -/
theorem Spells.unique {word' rest' : List Char} {lexeme' : Lexeme} (h : Spells word rest lexeme)
    (h' : Spells word' rest' lexeme') (heq : word ++ rest = word' ++ rest') :
    word = word' ∧ rest = rest' ∧ lexeme = lexeme' := by
  obtain ⟨c, word, rfl⟩ := List.exists_cons_of_ne_nil h.ne_nil
  obtain ⟨d, word', rfl⟩ := List.exists_cons_of_ne_nil h'.ne_nil
  obtain ⟨rfl, htail⟩ := List.cons.inj heq
  change word ++ rest = word' ++ rest' at htail
  have hscan := h.scan_eq 0
  rw [htail, h'.scan_eq 0] at hscan
  obtain ⟨rfl, hlength⟩ := Prod.mk.inj (Except.ok.inj hscan)
  obtain ⟨rfl, rfl⟩ := List.append_inj htail (Nat.succ.inj hlength.symm)
  exact ⟨rfl, rfl, rfl⟩

/-- What is found is spelled there. -/
theorem spells_of_scan {cs : List Char} {length : Nat} (h : scan pos c cs = .ok (lexeme, length)) :
    ∃ word rest, c :: cs = word ++ rest ∧ word.length = length ∧ Spells word rest lexeme := by
  rcases scan_cases h with ⟨hs, rfl⟩ | ⟨-, rfl, v, hv, rfl⟩ | ⟨-, rfl, hn⟩
  · exact ⟨[c], cs, rfl, rfl, .sign (mem_signs_of_ofSign? hs) cs⟩
  · obtain ⟨rest, heq, hm, he⟩ := Literal.exists_scan (c :: cs)
    rw [Literal.value?] at hv
    split at hv
    · rename_i hwell
      cases hv
      obtain ⟨hdigit, hdots⟩ := Bool.and_eq_true_iff.mp hwell
      rw [Literal.toFloat_toDecimal hm.members he]
      refine ⟨_, rest, ?_, rfl, .literal hm (List.any_eq_true.mp hdigit) (of_decide_eq_true hdots) he⟩
      exact heq.trans (List.append_assoc ..).symm
    · cases hv
  · have hw := isRun_takeWhile isAlphabetic (c :: cs)
    have hmem := mem_names_of_ofName? hn
    rw [String.toList_ofList] at hmem
    exact ⟨_, _, List.takeWhile_append_dropWhile.symm, rfl, .name hw hmem⟩

end
end Lexeme

end FormulaRoots
