import FormulaRoots.Proofs.Decimal.Positional
import FormulaRoots.Proofs.Decimal.Shortest
import FormulaRoots.Proofs.Scan.Spelling

/-! A finite double without a sign is written as a literal that denotes it. -/
namespace FormulaRoots
open Binary64

namespace Literal
variable {whole fraction : List Char}

private theorem isMantissaChar_of_mem_pointed (h : ∀ c ∈ whole ++ fraction, c.isDigit = true) :
    ∀ c ∈ pointed whole fraction, isMantissaChar c = true := by
  have hdigits : ∀ c ∈ whole ++ fraction, isMantissaChar c = true := by
    intro c hc
    rw [isMantissaChar, h c hc, Bool.true_or]
  cases fraction with
  | nil =>
    rwa [List.append_nil] at hdigits
  | cons d fraction =>
    obtain ⟨hwhole, hfraction⟩ := List.forall_mem_append.mp hdigits
    exact List.forall_mem_append.mpr ⟨hwhole, List.forall_mem_cons.mpr ⟨by decide, hfraction⟩⟩

private theorem count_dot_of_isDigit {ds : List Char} (h : ∀ c ∈ ds, c.isDigit = true) :
    ds.count '.' = 0 :=
  List.count_eq_zero_of_not_mem fun hmem => absurd (h '.' hmem) (by decide)

private theorem count_dot_pointed (h : ∀ c ∈ whole ++ fraction, c.isDigit = true) :
    (pointed whole fraction).count '.' ≤ 1 := by
  obtain ⟨hwhole, hfraction⟩ := List.forall_mem_append.mp h
  cases fraction with
  | nil => exact Nat.le_trans (Nat.le_of_eq (count_dot_of_isDigit hwhole)) (Nat.zero_le 1)
  | cons d fraction =>
    change (whole ++ '.' :: d :: fraction).count '.' ≤ 1
    rw [List.count_append, List.count_cons_self, count_dot_of_isDigit hwhole, count_dot_of_isDigit hfraction]

private theorem mem_pointed {c : Char} (h : c ∈ whole) : c ∈ pointed whole fraction := by
  cases fraction with
  | nil => exact h
  | cons => exact List.mem_append_left _ h

end Literal

/-- What may stand behind an operand in the text of a tree: a space, a closing parenthesis, or nothing. -/
def Closes (rest : List Char) : Prop :=
  ∀ c ∈ rest.head?, c = ' ' ∨ c = ')'

theorem closes_cons {c : Char} (hc : c = ' ' ∨ c = ')') (rest : List Char) : Closes (c :: rest) := by
  intro d hd
  cases hd
  exact hc

private theorem Closes.isExponentOf_nil {rest : List Char} (h : Closes rest) :
    Literal.IsExponentOf [] rest := by
  refine .none ?_
  rintro ⟨m, s, d, more, rfl, hm, -⟩
  rcases h m rfl with rfl | rfl <;> exact absurd hm (by decide)

private theorem Decimal.rounded_toDecimal_positional (d : Decimal) :
    (Literal.toDecimal ⟨d.positional, []⟩).rounded = d.rounded := by
  obtain ⟨whole, fraction, hpositional, -, hdigits, j, k, hsame⟩ := d.exists_positional
  obtain ⟨hwhole, hfraction⟩ := List.forall_mem_append.mp hdigits
  rw [hpositional, Literal.toDecimal_pointed hwhole hfraction, ← rounded_extend _ j, hsame, rounded_extend]

private theorem Decimal.text_of_isFinite {v : Float} (hfinite : v.isFinite = true)
    (hsign : signBit v = false) :
    (text v).toList = (magnitude v).shortest.positional := by
  rw [text, isNaN_of_isFinite hfinite, hsign, hfinite]
  exact String.toList_ofList ..

/-- What is written for a double spells it. -/
theorem Lexeme.spells_text {v : Float} (hfinite : v.isFinite = true) (hsign : signBit v = false)
    {rest : List Char} (hrest : Closes rest) : Spells (Decimal.text v).toList rest (number v) := by
  obtain ⟨whole, fraction, hpositional, hne, hdigits, -⟩ := (magnitude v).shortest.exists_positional
  obtain ⟨c, hc⟩ := List.exists_mem_of_ne_nil whole hne
  have hread : (Literal.toDecimal ⟨(magnitude v).shortest.positional, []⟩).toFloat = v :=
    Decimal.toFloat_of_rounded_eq hfinite hsign (Decimal.rounded_toDecimal_positional _)
  have hrun : IsRun Literal.isMantissaChar (pointed whole fraction) ([] ++ rest) := by
    refine ⟨Literal.isMantissaChar_of_mem_pointed hdigits, fun c hc => ?_⟩
    rcases hrest c hc with rfl | rfl <;> rfl
  have hspells := Spells.literal hrun ⟨c, Literal.mem_pointed hc, hdigits c (List.mem_append_left _ hc)⟩
    (Literal.count_dot_pointed hdigits) hrest.isExponentOf_nil
  rwa [List.append_nil, ← Literal.toFloat_toDecimal hrun.members hrest.isExponentOf_nil, ← hpositional, hread,
    ← Decimal.text_of_isFinite hfinite hsign] at hspells

end FormulaRoots
