import FormulaRoots.Proofs.Scan.Spelling

/-! A text as lexemes with white space between them. Scanning finds all its lexemes, loses no character, and
takes each lexeme as far as it goes. -/
namespace FormulaRoots
open Unicode

def IsBlank (cs : List Char) : Prop :=
  ∀ c ∈ cs, isWhiteSpace c = true

structure Extent where
  lexeme : Lexeme
  start : Nat
  stop : Nat

namespace Extent

def token (e : Extent) : Token :=
  ⟨e.lexeme, e.start⟩

/-- From `pos` on, each extent has a character, and ends before the next one starts and before `length`. -/
def Ordered (length : Nat) : (pos : Nat) → List Extent → Prop
  | pos, [] => pos ≤ length
  | pos, e :: es => pos ≤ e.start ∧ e.start < e.stop ∧ Ordered length e.stop es

private theorem Ordered.pos_le {length pos : Nat} {es : List Extent} (h : Ordered length pos es) :
    pos ≤ length := by
  induction es generalizing pos with
  | nil => exact h
  | cons e es ih =>
    have := ih h.2.2
    have := h.1
    have := h.2.1
    omega

private theorem Ordered.pos_le_start {length pos : Nat} {es : List Extent} (h : Ordered length pos es) :
    ∀ e ∈ es, pos ≤ e.start := by
  induction es generalizing pos with
  | nil => nofun
  | cons first es ih =>
    refine List.forall_mem_cons.mpr ⟨h.1, fun e he => ?_⟩
    have := ih h.2.2 e he
    have := h.1
    have := h.2.1
    omega

end Extent

/-- The extents hold the lexemes of a text from `pos` on, and nothing but white space is outside them. -/
structure IsSegmentation (text : List Char) (pos : Nat) (extents : List Extent) : Prop where
  ordered : Extent.Ordered text.length pos extents
  spelled : ∀ e ∈ extents, e.lexeme.Spells (text.extract e.start e.stop) (text.drop e.stop)
  blank : ∀ i c, pos ≤ i → text[i]? = some c → (∀ e ∈ extents, ¬ (e.start ≤ i ∧ i < e.stop)) →
    isWhiteSpace c = true

inductive Tiles : (pos : Nat) → (cs : List Char) → List Extent → Prop
  | blank {pos : Nat} {gap : List Char} (h : IsBlank gap) : Tiles pos gap []
  | cons {pos : Nat} {gap word rest : List Char} {lexeme : Lexeme} {extents : List Extent}
      (hgap : IsBlank gap) (hword : lexeme.Spells word rest)
      (h : Tiles (pos + gap.length + word.length) rest extents) :
      Tiles pos (gap ++ (word ++ rest))
        (⟨lexeme, pos + gap.length, pos + gap.length + word.length⟩ :: extents)

section
variable {pos : Nat} {cs gap word rest text : List Char} {lexeme : Lexeme} {extents : List Extent}

theorem isBlank_nil : IsBlank [] :=
  nofun

theorem isBlank_space : IsBlank [' '] :=
  List.forall_mem_singleton.mpr (by decide)

theorem IsBlank.append {ds : List Char} (hcs : IsBlank cs) (hds : IsBlank ds) : IsBlank (cs ++ ds) :=
  List.forall_mem_append.mpr ⟨hcs, hds⟩

theorem Tiles.cons_at {start stop : Nat} (hgap : IsBlank gap) (hword : lexeme.Spells word rest)
    (hstart : pos + gap.length = start) (hstop : start + word.length = stop) (h : Tiles stop rest extents) :
    Tiles pos (gap ++ (word ++ rest)) (⟨lexeme, start, stop⟩ :: extents) := by
  subst hstart hstop
  exact .cons hgap hword h

private theorem Tiles.prepend (hgap : IsBlank gap) (h : Tiles (pos + gap.length) cs extents) :
    Tiles pos (gap ++ cs) extents := by
  cases h with
  | blank h => exact .blank (hgap.append h)
  | cons hmore hword h =>
    rw [Nat.add_assoc pos, ← List.length_append] at h ⊢
    rw [← List.append_assoc]
    exact .cons (hgap.append hmore) hword h

private theorem not_isBlank_of_spells (hword : lexeme.Spells word rest) :
    ¬ IsBlank (gap ++ (word ++ rest)) := by
  intro h
  obtain ⟨c, word, rfl⟩ := List.exists_cons_of_ne_nil hword.ne_nil
  have hblank := h c (List.mem_append_right gap (List.mem_cons_self ..))
  rw [hword.isWhiteSpace_eq_false c (List.mem_cons_self ..)] at hblank
  cases hblank

private theorem takeWhile_isWhiteSpace (hgap : IsBlank gap) (hword : lexeme.Spells word rest) :
    (gap ++ (word ++ rest)).takeWhile isWhiteSpace = gap := by
  refine IsRun.takeWhile_eq ⟨hgap, fun c hc => ?_⟩
  obtain ⟨d, word, rfl⟩ := List.exists_cons_of_ne_nil hword.ne_nil
  cases hc
  exact hword.isWhiteSpace_eq_false c (List.mem_cons_self ..)

/-- There is only one way to cut up a text. -/
theorem Tiles.unique {extents' : List Extent} (h : Tiles pos cs extents) (h' : Tiles pos cs extents') :
    extents' = extents := by
  induction h generalizing extents' with
  | blank h =>
    cases h' with
    | blank => rfl
    | cons _ hword => exact absurd h (not_isBlank_of_spells hword)
  | @cons pos gap word rest lexeme extents hgap hword h ih =>
    generalize hcs : gap ++ (word ++ rest) = cs at h'
    cases h' with
    | blank h' => exact absurd (hcs ▸ h') (not_isBlank_of_spells hword)
    | cons hgap' hword' h' =>
      have hgaps := congrArg (List.takeWhile isWhiteSpace) hcs
      rw [takeWhile_isWhiteSpace hgap hword, takeWhile_isWhiteSpace hgap' hword'] at hgaps
      subst hgaps
      obtain ⟨rfl, rfl, rfl⟩ := hword.unique hword' (List.append_cancel_left hcs)
      rw [ih h']

/-! ### Scanning -/

namespace Token

theorem scanFrom_blank_append (hgap : IsBlank gap) (pos : Nat) (cs : List Char) :
    scanFrom pos 0 (gap ++ cs) = scanFrom (pos + gap.length) 0 cs := by
  induction gap generalizing pos with
  | nil => rfl
  | cons c gap ih =>
    obtain ⟨hc, hgap⟩ := List.forall_mem_cons.mp hgap
    rw [List.cons_append, scanFrom, if_pos hc, ih hgap, List.length_cons, Nat.add_right_comm,
      ← Nat.add_assoc]

theorem scanFrom_spelled_append (hword : lexeme.Spells word rest) (pos : Nat) :
    scanFrom pos 0 (word ++ rest) =
      (scanFrom (pos + word.length) 0 rest).map (⟨lexeme, pos⟩ :: ·) := by
  obtain ⟨c, word, rfl⟩ := List.exists_cons_of_ne_nil hword.ne_nil
  have hc : ¬ isWhiteSpace c = true := by
    rw [hword.isWhiteSpace_eq_false c (List.mem_cons_self ..)]
    exact Bool.false_ne_true
  have hskip : scanFrom (pos + 1) word.length (word ++ rest) =
      scanFrom (pos + (c :: word).length) 0 rest := by
    rw [scanFrom_skip, List.drop_left, List.length_cons, Nat.add_assoc, Nat.add_comm 1]
  rw [List.cons_append, scanFrom, if_neg hc, hword.scan_eq]
  simp only [bind, Except.bind, Nat.add_sub_cancel, hskip]
  cases scanFrom (pos + (c :: word).length) 0 rest <;> rfl

/-- The lexemes of a text are found. -/
theorem scanFrom_of_tiles (h : Tiles pos cs extents) :
    scanFrom pos 0 cs = .ok (extents.map Extent.token) := by
  induction h with
  | @blank pos gap h =>
    have hscan := scanFrom_blank_append h pos []
    rwa [List.append_nil] at hscan
  | cons hgap hword h ih =>
    rw [scanFrom_blank_append hgap, scanFrom_spelled_append hword, ih]
    rfl

/-- What is found are the lexemes of the text. -/
theorem tiles_of_scanFrom {ts : List Token} (h : scanFrom pos 0 cs = .ok ts) :
    ∃ extents, Tiles pos cs extents ∧ extents.map Extent.token = ts := by
  -- on the length of the text, since a lexeme may take several characters at once
  induction hn : cs.length using Nat.strong_induction_on generalizing pos cs ts with
  | _ n ih =>
    cases cs with
    | nil =>
      cases h
      exact ⟨[], .blank nofun, rfl⟩
    | cons c cs =>
      rcases scanFrom_cases h with ⟨hw, hcs⟩ | ⟨-, lexeme, length, later, hscan, hpos, hlater, rfl⟩
      · have hgap : IsBlank [c] := by simpa [IsBlank] using hw
        rw [List.length_cons] at hn
        obtain ⟨extents, htiles, hmap⟩ := ih cs.length (by omega) hcs rfl
        exact ⟨extents, htiles.prepend hgap, hmap⟩
      · obtain ⟨word, rest, heq, rfl, hword⟩ := Lexeme.spells_of_scan hscan
        rw [heq, List.length_append] at hn
        rw [heq, List.drop_left] at hlater
        obtain ⟨extents, htiles, hmap⟩ := ih rest.length (by omega) hlater rfl
        refine ⟨_, heq ▸ Tiles.cons isBlank_nil hword htiles, ?_⟩
        rw [List.map_cons, hmap]
        rfl

end Token

/-! ### Places -/

/-- A character behind the place `start`, by its place in the whole text. -/
theorem exists_getElem?_of_mem_extract {start stop : Nat} {c : Char} (h : c ∈ text.extract start stop) :
    ∃ i, start ≤ i ∧ i < stop ∧ text[i]? = some c := by
  obtain ⟨i, hi⟩ := List.mem_iff_getElem?.mp h
  rw [List.extract_eq_take_drop, List.getElem?_take, List.getElem?_drop] at hi
  split at hi
  · exact ⟨start + i, by omega, by omega, hi⟩
  · cases hi

private theorem drop_eq_extract_append {start stop : Nat} (h : start ≤ stop) :
    text.drop start = text.extract start stop ++ text.drop stop := by
  have hstop : text.drop stop = (text.drop start).drop (stop - start) := by
    rw [List.drop_drop, Nat.add_sub_cancel' h]
  rw [List.extract_eq_take_drop, hstop, List.take_append_drop]

private theorem extract_append (before word rest : List Char) :
    (before ++ (word ++ rest)).extract before.length (before.length + word.length) = word := by
  rw [List.extract_eq_take_drop, List.drop_left, Nat.add_sub_cancel_left, List.take_left]

theorem Tiles.isSegmentation (h : Tiles pos cs extents) (before : List Char)
    (hbefore : before.length = pos) : IsSegmentation (before ++ cs) pos extents := by
  induction h generalizing before with
  | blank h =>
    subst hbefore
    refine ⟨by simp [Extent.Ordered], nofun, fun i c hi hc _ => ?_⟩
    rw [List.getElem?_append_right hi] at hc
    exact h c (List.mem_of_getElem? hc)
  | @cons pos gap word rest lexeme extents hgap hword h ih =>
    subst hbefore
    have hlater := ih (before ++ gap ++ word) (by simp [Nat.add_assoc])
    have htext : before ++ gap ++ word ++ rest = before ++ (gap ++ (word ++ rest)) := by
      simp only [List.append_assoc]
    rw [htext] at hlater
    have hpos := List.length_pos_iff.mpr hword.ne_nil
    refine ⟨⟨by simp, by simp [hpos], hlater.ordered⟩, List.forall_mem_cons.mpr ⟨?_, hlater.spelled⟩, ?_⟩
    · have hextract := extract_append (before ++ gap) word rest
      have hdrop : (before ++ gap ++ word ++ rest).drop (before.length + gap.length + word.length) = rest :=
        List.drop_left' (by simp only [List.length_append])
      rw [List.append_assoc before, List.length_append] at hextract
      rw [htext] at hdrop
      rwa [hextract, hdrop]
    · intro i c hi hc hout
      obtain ⟨hfirst, hout⟩ := List.forall_mem_cons.mp hout
      by_cases hstart : i < before.length + gap.length
      · rw [List.getElem?_append_right hi, List.getElem?_append_left (by omega)] at hc
        exact hgap c (List.mem_of_getElem? hc)
      · exact hlater.blank i c (by dsimp only at hfirst; omega) hc hout

theorem IsSegmentation.tiles (h : IsSegmentation text pos extents) :
    Tiles pos (text.drop pos) extents := by
  induction extents generalizing pos with
  | nil =>
    refine .blank fun c hc => ?_
    obtain ⟨i, hi⟩ := List.mem_iff_getElem?.mp hc
    rw [List.getElem?_drop] at hi
    exact h.blank (pos + i) c (Nat.le_add_right ..) hi nofun
  | cons e es ih =>
    obtain ⟨lexeme, start, stop⟩ := e
    obtain ⟨hstart, hstop, hordered⟩ := h.ordered
    obtain ⟨hword, hspelled⟩ := List.forall_mem_cons.mp h.spelled
    dsimp only at hstart hstop hordered hword
    have hlength := hordered.pos_le
    have hlater : IsSegmentation text stop es := by
      refine ⟨hordered, hspelled, fun i c hi hc hout => h.blank i c (by omega) hc ?_⟩
      exact List.forall_mem_cons.mpr ⟨by dsimp only; omega, hout⟩
    have hgap : IsBlank (text.extract pos start) := by
      intro c hc
      obtain ⟨i, hi, histart, hc⟩ := exists_getElem?_of_mem_extract hc
      refine h.blank i c hi hc (List.forall_mem_cons.mpr ⟨by dsimp only; omega, fun e he => ?_⟩)
      have := hordered.pos_le_start e he
      omega
    have hgapLength : pos + (text.extract pos start).length = start := by
      simp only [List.extract_eq_take_drop, List.length_take, List.length_drop]
      omega
    have hwordLength : start + (text.extract start stop).length = stop := by
      simp only [List.extract_eq_take_drop, List.length_take, List.length_drop]
      omega
    rw [drop_eq_extract_append hstart, drop_eq_extract_append hstop.le]
    exact .cons_at hgap hword hgapLength hwordLength (ih hlater)

/-- Scanning succeeds with the tokens `ts` if and only if these are the lexemes of the text, at their
places. -/
theorem Token.scan_eq_ok_iff_isSegmentation (text : List Char) (ts : List Token) :
    scan text = .ok ts ↔ ∃ extents, IsSegmentation text 0 extents ∧ extents.map Extent.token = ts := by
  constructor
  · intro h
    obtain ⟨extents, htiles, hmap⟩ := tiles_of_scanFrom h
    exact ⟨extents, htiles.isSegmentation [] rfl, hmap⟩
  · rintro ⟨extents, h, rfl⟩
    exact scanFrom_of_tiles h.tiles

end
end FormulaRoots
