import FormulaRoots.Unicode.Alphabetic
import FormulaRoots.Unicode.Lowercase
import FormulaRoots.Unicode.WhiteSpace

/-! Characters that no class but their own holds, and words whose lower case is that of their
characters one by one. -/
namespace FormulaRoots.Unicode

def Ranges.disjoint (rs ss : Ranges) : Bool :=
  rs.all fun r => ss.all fun s => decide (r.2 < s.1) || decide (s.2 < r.1)

theorem Ranges.has_eq_false_of_disjoint (rs ss : Ranges) (h : rs.disjoint ss = true) {c : Char}
    (hc : rs.has c = true) : ss.has c = false := by
  obtain ⟨r, hr, hrc⟩ := List.any_eq_true.mp hc
  refine List.any_eq_false.mpr fun s hs hsc => ?_
  have hd := List.all_eq_true.mp (List.all_eq_true.mp h r hr) s hs
  simp only [Bool.and_eq_true, Bool.or_eq_true, decide_eq_true_eq] at hrc hsc hd
  omega

/-- A letter is no white space. -/
theorem isWhiteSpace_of_isAlphabetic {c : Char} (h : isAlphabetic c = true) :
    isWhiteSpace c = false :=
  Ranges.has_eq_false_of_disjoint alphabetic whiteSpace (by decide +kernel) h

private theorem lowercaseRanges_first : ∀ r ∈ lowercaseRanges, 0x41 ≤ r.first := by
  decide +kernel

/-- The characters before the capital A are their own lower case. -/
theorem lowerChar_of_lt {c : Char} (h : c.toNat < 0x41) : lowerChar c = [c] := by
  have hne : c ≠ 'İ' := by
    rintro rfl
    exact absurd h (by decide)
  have hnone : lowercaseRanges.findSome? (·.map? c.toNat) = none := by
    rw [List.findSome?_eq_none_iff]
    intro r hr
    have hf := lowercaseRanges_first r hr
    exact if_neg (by omega)
  unfold lowerChar
  rw [if_neg hne, hnone]

/-- Without a capital sigma, the lower case of a text is that of its characters. -/
theorem lowerFrom_eq_flatMap {cs : List Char} (h : 'Σ' ∉ cs) (before : List Char) :
    lowerFrom before cs = cs.flatMap lowerChar := by
  induction cs generalizing before with
  | nil => rfl
  | cons c cs ih =>
    obtain ⟨hc, hcs⟩ := not_or.mp (mt List.mem_cons.mpr h)
    rw [lowerFrom, if_neg fun he => hc he.symm, ih hcs, List.flatMap_cons]

/-- A capital sigma leaves a small one. -/
theorem sigma_mem_lowerFrom {cs : List Char} (h : 'Σ' ∈ cs) (before : List Char) :
    'σ' ∈ lowerFrom before cs ∨ 'ς' ∈ lowerFrom before cs := by
  induction cs generalizing before with
  | nil => cases h
  | cons c cs ih =>
    rw [lowerFrom]
    by_cases hc : c = 'Σ'
    · rw [if_pos hc]
      by_cases hm : (meetsCased before && !meetsCased cs) = true
      · rw [if_pos hm]
        exact .inr (List.mem_cons_self ..)
      · rw [if_neg hm]
        exact .inl (List.mem_cons_self ..)
    · have hcs : 'Σ' ∈ cs := (List.mem_cons.mp h).resolve_left fun he => hc he.symm
      exact (ih hcs (c :: before)).imp (List.mem_append_right _) (List.mem_append_right _)

end FormulaRoots.Unicode
