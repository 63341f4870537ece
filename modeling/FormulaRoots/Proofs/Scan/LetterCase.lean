import Mathlib.Data.List.Basic
import FormulaRoots.Proofs.Scan.Lexeme

/-! The case of ASCII letters means nothing to the scanner, not even that of an exponent marker. -/
namespace FormulaRoots
open Unicode

namespace Unicode

/-- A character is its own lower case in ASCII, or it is one of the letters from A to Z. -/
theorem toLower_cases (c : Char) : c.toLower = c ∨
    ∃ n < 26, c = Char.ofNat (0x41 + n) ∧ c.toLower = Char.ofNat (0x61 + n) := by
  by_cases h : 0x41 ≤ c.toNat ∧ c.toNat < 0x5B
  · right
    have hc : c = Char.ofNat (0x41 + (c.toNat - 0x41)) := by
      rw [Nat.add_sub_cancel' h.1, Char.ofNat_toNat]
    have hletters : ∀ n < 26, (Char.ofNat (0x41 + n)).toLower = Char.ofNat (0x61 + n) := by decide
    refine ⟨c.toNat - 0x41, by omega, hc, ?_⟩
    rw [← hletters _ (by omega), ← hc]
  · have hupper : ¬ (c.val ≥ 'A'.val ∧ c.val ≤ 'Z'.val) := by
      rintro ⟨hl, hu⟩
      have hl := UInt32.le_iff_toNat_le.mp hl
      have hu := UInt32.le_iff_toNat_le.mp hu
      exact h ⟨hl, Nat.lt_succ_of_le hu⟩
    exact .inl (dif_neg hupper)

/-- What treats the two cases of each ASCII letter alike does not change with lower case. -/
theorem toLower_invariant {α : Type} (f : Char → α)
    (h : ∀ n < 26, f (Char.ofNat (0x61 + n)) = f (Char.ofNat (0x41 + n))) (c : Char) :
    f c.toLower = f c := by
  rcases toLower_cases c with heq | ⟨n, hn, hc, hlower⟩
  · rw [heq]
  · rw [hlower, h n hn, ← hc]

private theorem toLower_of_lt {c : Char} (h : c.toNat < 0x41) : c.toLower = c := by
  have hall : ∀ n < 0x41, (Char.ofNat n).toLower = Char.ofNat n := by decide
  have hc := hall c.toNat h
  rwa [Char.ofNat_toNat] at hc

@[simp]
theorem isWhiteSpace_toLower (c : Char) : isWhiteSpace c.toLower = isWhiteSpace c :=
  toLower_invariant _ (by decide) c

@[simp]
private theorem isAlphabetic_toLower (c : Char) : isAlphabetic c.toLower = isAlphabetic c :=
  toLower_invariant _ (by decide +kernel) c

theorem lowerChar_toLower (c : Char) : lowerChar c.toLower = lowerChar c :=
  toLower_invariant _ (by decide +kernel) c

private theorem toLower_eq_sigma {c : Char} : c.toLower = 'Σ' ↔ c = 'Σ' := by
  have h := toLower_invariant (fun c => decide (c = 'Σ')) (by decide) c
  simpa only [decide_eq_decide] using h

end Unicode

section
variable {p : Char → Bool} (h : ∀ c, p c.toLower = p c) (cs : List Char)
include h

private theorem takeWhile_map_toLower : (cs.map Char.toLower).takeWhile p =
    (cs.takeWhile p).map Char.toLower := by
  rw [List.takeWhile_map, show p ∘ Char.toLower = p from funext h]

private theorem dropWhile_map_toLower : (cs.map Char.toLower).dropWhile p =
    (cs.dropWhile p).map Char.toLower := by
  rw [List.dropWhile_map, show p ∘ Char.toLower = p from funext h]

end

namespace Literal

@[simp]
private theorem isDigit_toLower (c : Char) : c.toLower.isDigit = c.isDigit :=
  toLower_invariant _ (by decide) c

@[simp]
private theorem isMantissaChar_toLower (c : Char) : isMantissaChar c.toLower = isMantissaChar c :=
  toLower_invariant _ (by decide) c

@[simp]
private theorem isMarker_toLower (c : Char) : isMarker c.toLower = isMarker c :=
  toLower_invariant _ (by decide) c

@[simp]
private theorem isSign_toLower (c : Char) : isSign c.toLower = isSign c :=
  toLower_invariant _ (by decide) c

private theorem signedDigits_toLower (cs : List Char) :
    signedDigits (cs.map Char.toLower) = (signedDigits cs).map Char.toLower := by
  cases cs with
  | nil => rfl
  | cons c cs =>
    have htake := takeWhile_map_toLower isDigit_toLower
    rw [List.map_cons, signedDigits, signedDigits, isSign_toLower, ← List.map_cons, htake, htake]
    split <;> rfl

private theorem exponentAt_toLower (cs : List Char) :
    exponentAt (cs.map Char.toLower) = (exponentAt cs).map Char.toLower := by
  cases cs with
  | nil => rfl
  | cons c cs =>
    have hany : ((signedDigits cs).map Char.toLower).any Char.isDigit = (signedDigits cs).any Char.isDigit := by
      rw [List.any_map]
      exact congrArg _ (funext isDigit_toLower)
    rw [List.map_cons, exponentAt, exponentAt, isMarker_toLower, signedDigits_toLower, hany]
    split <;> rfl

private theorem scan_toLower (cs : List Char) : scan (cs.map Char.toLower) =
    ⟨(scan cs).mantissa.map Char.toLower, (scan cs).exponent.map Char.toLower⟩ := by
  rw [scan, takeWhile_map_toLower isMantissaChar_toLower, dropWhile_map_toLower isMantissaChar_toLower,
    exponentAt_toLower]
  rfl

private theorem length_chars_scan_toLower (cs : List Char) :
    (scan (cs.map Char.toLower)).chars.length = (scan cs).chars.length := by
  rw [scan_toLower]
  simp only [chars, List.length_append, List.length_map]

private theorem value?_scan_toLower (cs : List Char) :
    (scan (cs.map Char.toLower)).value? = (scan cs).value? := by
  have hexponent : IsExponent (scan cs).exponent := isExponent_exponentAt _
  have hmantissa : (scan cs).mantissa.map Char.toLower = (scan cs).mantissa := by
    refine (List.map_congr_left fun c hc => ?_).trans (List.map_id _)
    exact toLower_of_lt (toNat_of_isMantissaChar (isMantissaChar_of_mem_scan hc))
  have hmarker : (scan cs).exponent.map Char.toLower = (scan cs).exponent.flatMap lowerChar := by
    rw [List.map_eq_flatMap]
    refine List.flatMap_congr fun c hc => ?_
    rcases isMarker_or_lt_of_mem_chars (List.mem_append_right _ hc) with hc | hc
    · rcases isMarker_iff.mp hc with rfl | rfl <;> decide
    · rw [toLower_of_lt hc, lowerChar_of_lt hc]
  have hlower : scan (cs.map Char.toLower) = (scan cs).lower := by
    rw [scan_toLower, hmantissa, hmarker]
    rfl
  rw [hlower, value?_lower hexponent]

end Literal

namespace Lexeme

private theorem ofSign?_toLower (c : Char) : ofSign? c.toLower = ofSign? c :=
  toLower_invariant _ (by decide) c

private theorem wordAt_toLower (cs : List Char) :
    wordAt (cs.map Char.toLower) = (wordAt cs).map Char.toLower :=
  takeWhile_map_toLower isAlphabetic_toLower cs

private theorem ofName?_toLower (word : List Char) :
    ofName? (String.ofList (lowercase (word.map Char.toLower))) =
      ofName? (String.ofList (lowercase word)) := by
  by_cases h : 'Σ' ∈ word
  · rw [ofName?_of_sigma_mem h, ofName?_of_sigma_mem (List.mem_map.mpr ⟨'Σ', h, by decide⟩)]
  · have hmap : 'Σ' ∉ word.map Char.toLower := by
      intro hmem
      obtain ⟨c, hc, hlower⟩ := List.mem_map.mp hmem
      rw [toLower_eq_sigma.mp hlower] at hc
      exact h hc
    have heq : lowercase (word.map Char.toLower) = lowercase word := by
      rw [lowercase, lowercase, lowerFrom_eq_flatMap h, lowerFrom_eq_flatMap hmap, List.flatMap_map]
      exact congrArg (List.flatMap · word) (funext lowerChar_toLower)
    rw [heq]

/-- The case of letters changes no lexeme; of the errors it can change the text they quote. -/
theorem scan_toLower (pos : Nat) (c : Char) (cs : List Char) :
    (scan pos c.toLower (cs.map Char.toLower)).toOption = (scan pos c cs).toOption := by
  have hvalue := Literal.value?_scan_toLower (c :: cs)
  have hlength := Literal.length_chars_scan_toLower (c :: cs)
  have hword := wordAt_toLower (c :: cs)
  rw [List.map_cons] at hvalue hlength hword
  simp only [scan, ofSign?_toLower, Literal.isMantissaChar_toLower, isAlphabetic_toLower, hvalue, hlength,
    hword, ofName?_toLower, List.length_map]
  cases ofSign? c with
  | some sign => rfl
  | none =>
    dsimp only
    split
    · cases (Literal.scan (c :: cs)).value? <;> rfl
    · split
      · cases ofName? (String.ofList (lowercase (wordAt (c :: cs)))) <;> rfl
      · rfl

end Lexeme

namespace Token

theorem toOption_scanFrom_toLower (pos skip : Nat) (cs : List Char) :
    (scanFrom pos skip (cs.map Char.toLower)).toOption = (scanFrom pos skip cs).toOption := by
  induction cs generalizing pos skip with
  | nil => rfl
  | cons c cs ih =>
    cases skip with
    | succ skip => exact ih (pos + 1) skip
    | zero =>
      rw [List.map_cons, toOption_scanFrom_cons, toOption_scanFrom_cons, isWhiteSpace_toLower,
        Lexeme.scan_toLower]
      simp only [ih]

/-- Texts that differ in the case of ASCII letters have the same tokens. -/
theorem scan_of_toLower {cs ds : List Char} {ts : List Token}
    (h : ds.map Char.toLower = cs.map Char.toLower) (hcs : scan cs = .ok ts) : scan ds = .ok ts := by
  have heq : (scan ds).toOption = some ts := by
    unfold scan at hcs ⊢
    rw [← toOption_scanFrom_toLower, h, toOption_scanFrom_toLower, hcs]
    rfl
  cases hds : scan ds with
  | error e =>
    rw [hds] at heq
    cases heq
  | ok us =>
    rw [hds] at heq
    cases heq
    rfl

end Token

end FormulaRoots
