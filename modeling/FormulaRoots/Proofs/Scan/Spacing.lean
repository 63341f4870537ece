import FormulaRoots.Proofs.Grammar.Places
import FormulaRoots.Proofs.Scan.Segmentation

/-! White space that is put into a text between its lexemes, or taken off its ends, moves the tokens and
changes nothing else. -/
namespace FormulaRoots
open Unicode

/-! ### What follows a lexeme -/

def visibleHead (cs : List Char) : List Char :=
  cs.takeWhile fun c => !isWhiteSpace c

section
variable {word rest rest' : List Char} {lexeme : Lexeme}

private theorem prefix_of_visibleHead (hrest : visibleHead rest' <+: rest)
    (hword : ∀ c ∈ word, isWhiteSpace c = false) (h : word <+: rest') : word <+: rest := by
  obtain ⟨more, rfl⟩ := h
  refine List.IsPrefix.trans ?_ hrest
  rw [visibleHead, List.takeWhile_append_of_pos fun c hc => by rw [hword c hc]; rfl]
  exact List.prefix_append ..

theorem visibleHead_append (hrest : visibleHead rest' <+: rest) (word : List Char) :
    visibleHead (word ++ rest') <+: word ++ rest := by
  induction word with
  | nil => exact hrest
  | cons c word ih =>
    rw [List.cons_append, visibleHead, List.takeWhile_cons]
    split
    · exact (List.prefix_cons_inj c).mpr ih
    · exact List.nil_prefix

private theorem IsRun.of_visibleHead {p : Char → Bool} (hp : ∀ c, p c = true → isWhiteSpace c = false)
    (hrest : visibleHead rest' <+: rest) (h : IsRun p word rest) : IsRun p word rest' where
  members := h.members
  stops c hc := by
    refine Bool.eq_false_iff.mpr fun hpc => ?_
    obtain ⟨more, rfl⟩ := List.head?_eq_some_iff.mp hc
    have hhead : [c] <+: rest :=
      prefix_of_visibleHead hrest (by simpa using hp c hpc) (List.prefix_append [c] more)
    obtain ⟨more, rfl⟩ := hhead
    have hstop := h.stops c rfl
    rw [hpc] at hstop
    cases hstop

namespace Literal

private theorem isWhiteSpace_of_isDigit {c : Char} (h : c.isDigit = true) : isWhiteSpace c = false :=
  isWhiteSpace_of_isMantissaChar (by rw [isMantissaChar, h, Bool.true_or])

private theorem BeginsExponent.of_visibleHead (hrest : visibleHead rest' <+: rest)
    (h : BeginsExponent rest') :
    BeginsExponent rest := by
  obtain ⟨m, s, d, more, rfl, hm, hs, hd⟩ := h
  have hvisible : ∀ c ∈ m :: (s ++ [d]), isWhiteSpace c = false := by
    have hmarker : isWhiteSpace m = false := by
      rcases hm with rfl | rfl <;> decide
    have hsign : ∀ c ∈ s, isWhiteSpace c = false := by
      rcases hs with rfl | rfl | rfl
      · exact List.forall_mem_nil _
      · exact List.forall_mem_singleton.mpr (by decide)
      · exact List.forall_mem_singleton.mpr (by decide)
    simpa [hmarker, isWhiteSpace_of_isDigit hd, or_imp, forall_and] using hsign
  have hprefix : m :: (s ++ [d]) <+: m :: (s ++ d :: more) := ⟨more, by simp⟩
  obtain ⟨more, rfl⟩ := prefix_of_visibleHead hrest hvisible hprefix
  exact ⟨m, s, d, more, by simp, hm, hs, hd⟩

private theorem IsExponentOf.of_visibleHead {exponent : List Char} (hrest : visibleHead rest' <+: rest)
    (h : IsExponentOf exponent rest) : IsExponentOf exponent rest' := by
  cases h with
  | none h => exact .none fun hbegins => h (hbegins.of_visibleHead hrest)
  | some hm hs hne hds => exact .some hm hs hne (hds.of_visibleHead (fun c => isWhiteSpace_of_isDigit) hrest)

end Literal

/-- A lexeme is spelled as before if what follows it goes on as before or breaks off in white space. -/
theorem Lexeme.Spells.of_visibleHead (hrest : visibleHead rest' <+: rest) (h : Spells word rest lexeme) :
    Spells word rest' lexeme := by
  cases h with
  | sign h => exact .sign h rest'
  | @literal mantissa exponent _ hm hdigit hdots he =>
    have hm' := hm.of_visibleHead (fun c => Literal.isWhiteSpace_of_isMantissaChar)
      (visibleHead_append hrest exponent)
    exact .literal hm' hdigit hdots (he.of_visibleHead hrest)
  | name hw h => exact .name (hw.of_visibleHead (fun c => isWhiteSpace_of_isAlphabetic) hrest) h

end

/-! ### Putting white space in -/

def weave (gaps : Nat → List Char) : (pos : Nat) → List Char → List Char
  | _, [] => []
  | pos, c :: cs => gaps pos ++ c :: weave gaps (pos + 1) cs

def spread (gaps : Nat → List Char) (cs : List Char) : List Char :=
  weave gaps 0 cs ++ gaps cs.length

def inserted (gaps : Nat → List Char) : Nat → Nat
  | 0 => 0
  | n + 1 => inserted gaps n + (gaps n).length

def placeIn (gaps : Nat → List Char) (i : Nat) : Nat :=
  i + inserted gaps (i + 1)

section
variable {gaps : Nat → List Char} {pos : Nat} {cs : List Char} {extents : List Extent}

private theorem inserted_succ (gaps : Nat → List Char) (n : Nat) :
    inserted gaps (n + 1) = inserted gaps n + (gaps n).length := rfl

private theorem weave_append (gaps : Nat → List Char) (pos : Nat) (cs ds : List Char) :
    weave gaps pos (cs ++ ds) = weave gaps pos cs ++ weave gaps (pos + cs.length) ds := by
  induction cs generalizing pos with
  | nil => rfl
  | cons c cs ih =>
    simp only [List.cons_append, weave, ih, List.append_assoc, List.length_cons]
    rw [Nat.add_right_comm, Nat.add_assoc]

private theorem length_weave (gaps : Nat → List Char) (pos : Nat) (cs : List Char) :
    (weave gaps pos cs).length + inserted gaps pos = cs.length + inserted gaps (pos + cs.length) := by
  induction cs generalizing pos with
  | nil => rfl
  | cons c cs ih =>
    have hnext := ih (pos + 1)
    have hsucc := inserted_succ gaps pos
    simp only [weave, List.length_append, List.length_cons]
    rw [show pos + (cs.length + 1) = pos + 1 + cs.length by omega]
    omega

private theorem weave_of_no_gaps (h : ∀ i, pos ≤ i → i < pos + cs.length → gaps i = []) :
    weave gaps pos cs = cs := by
  induction cs generalizing pos with
  | nil => rfl
  | cons c cs ih =>
    rw [List.length_cons] at h
    rw [weave, h pos (Nat.le_refl _) (by omega), ih fun i hi hlt => h i (by omega) (by omega)]
    rfl

private theorem isBlank_weave (hgaps : ∀ i, IsBlank (gaps i)) (h : IsBlank cs) :
    IsBlank (weave gaps pos cs) := by
  induction cs generalizing pos with
  | nil => nofun
  | cons c cs ih =>
    obtain ⟨hc, hcs⟩ := List.forall_mem_cons.mp h
    exact (hgaps pos).append (List.forall_mem_cons.mpr ⟨hc, ih hcs⟩)

private theorem visibleHead_of_isBlank {gap : List Char} (hgap : IsBlank gap) (hne : gap ≠ [])
    (cs : List Char) :
    visibleHead (gap ++ cs) = [] := by
  obtain ⟨c, gap, rfl⟩ := List.exists_cons_of_ne_nil hne
  have hc := hgap c (List.mem_cons_self ..)
  rw [List.cons_append, visibleHead, List.takeWhile_cons_of_neg (by simp [hc])]

private theorem visibleHead_weave (hgaps : ∀ i, IsBlank (gaps i)) {gap : List Char} (hgap : IsBlank gap)
    (pos : Nat) (cs : List Char) : visibleHead (weave gaps pos cs ++ gap) <+: cs := by
  induction cs generalizing pos with
  | nil =>
    by_cases hempty : gap = []
    · rw [hempty]
      exact List.nil_prefix
    · have hhead := visibleHead_of_isBlank hgap hempty []
      rw [List.append_nil] at hhead
      simpa only [weave, List.nil_append, hhead] using List.nil_prefix
  | cons c cs ih =>
    rw [weave, List.append_assoc]
    by_cases hempty : gaps pos = []
    · rw [hempty, List.nil_append, List.cons_append]
      exact visibleHead_append (ih (pos + 1)) [c]
    · rw [visibleHead_of_isBlank (hgaps pos) hempty]
      exact List.nil_prefix

/-- With white space between its lexemes a text has the same lexemes, moved. -/
theorem Tiles.spaced (h : Tiles pos cs extents) (hgaps : ∀ i, IsBlank (gaps i)) {gap : List Char}
    (hgap : IsBlank gap) (hinside : ∀ e ∈ extents, ∀ i, e.start < i → i < e.stop → gaps i = []) :
    Tiles (pos + inserted gaps pos) (weave gaps pos cs ++ gap)
      (extents.map fun e => ⟨e.lexeme, placeIn gaps e.start, placeIn gaps e.start + (e.stop - e.start)⟩) := by
  induction h with
  | blank h => exact .blank ((isBlank_weave hgaps h).append hgap)
  | @cons pos before word rest lexeme extents hbefore hword h ih =>
    obtain ⟨hfirst, hlater⟩ := List.forall_mem_cons.mp hinside
    dsimp only at hfirst
    obtain ⟨c, word, rfl⟩ := List.exists_cons_of_ne_nil hword.ne_nil
    -- no gap falls into the word, so it stays whole behind the gap in front of it
    have hwhole : weave gaps (pos + before.length + 1) word = word :=
      weave_of_no_gaps fun i hi hlt => hfirst i (by omega) (by rw [List.length_cons]; omega)
    have hbeforeLength := length_weave gaps pos before
    have hwordLength := length_weave gaps (pos + before.length + 1) word
    have hsucc := inserted_succ gaps (pos + before.length)
    rw [hwhole] at hwordLength
    have hbehind : pos + before.length + (c :: word).length = pos + before.length + 1 + word.length := by
      rw [List.length_cons]
      omega
    have htext : weave gaps pos (before ++ ((c :: word) ++ rest)) ++ gap =
        (weave gaps pos before ++ gaps (pos + before.length)) ++ ((c :: word) ++
          (weave gaps (pos + before.length + 1 + word.length) rest ++ gap)) := by
      simp only [weave_append, weave, hwhole, List.append_assoc, List.cons_append]
    have hstart : pos + inserted gaps pos + (weave gaps pos before ++ gaps (pos + before.length)).length =
        placeIn gaps (pos + before.length) := by
      rw [placeIn, List.length_append]
      omega
    have hstop : placeIn gaps (pos + before.length) + (c :: word).length =
        pos + before.length + 1 + word.length + inserted gaps (pos + before.length + 1 + word.length) := by
      rw [placeIn, List.length_cons]
      omega
    rw [htext, List.map_cons, Nat.add_sub_cancel_left]
    refine .cons_at ((isBlank_weave hgaps hbefore).append (hgaps _))
      (hword.of_visibleHead (visibleHead_weave hgaps hgap _ rest)) hstart rfl ?_
    rw [hstop, ← hbehind]
    exact ih hlater

/-! ### Taking white space off -/

private theorem Tiles.of_append_blank {gap : List Char} (h : Tiles pos (cs ++ gap) extents)
    (hgap : IsBlank gap) :
    Tiles pos cs extents := by
  generalize hds : cs ++ gap = ds at h
  induction h generalizing cs with
  | blank h =>
    subst hds
    exact .blank fun c hc => h c (List.mem_append_left _ hc)
  | @cons pos before word rest lexeme extents hbefore hword h ih =>
    -- a word ends in a visible character, so nothing of it is cut off
    obtain ⟨more, rfl, rfl⟩ : ∃ more, cs = before ++ word ++ more ∧ rest = more ++ gap := by
      rw [← List.append_assoc, List.append_eq_append_iff] at hds
      obtain ⟨tail, hcs, hrest⟩ | h := hds
      · by_cases hne : tail = []
        · subst hne
          exact ⟨[], by simpa using hcs.symm, hrest.symm⟩
        · have hlast := congrArg List.getLast? hcs
          rw [List.getLast?_append, List.getLast?_append, List.getLast?_eq_some_getLast hword.ne_nil,
            List.getLast?_eq_some_getLast hne] at hlast
          have hvisible := hword.isWhiteSpace_eq_false _ (List.getLast_mem hword.ne_nil)
          have hblank := hgap _ (hrest ▸ List.mem_append_left _ (List.getLast_mem hne))
          rw [← Option.some.inj hlast, hvisible] at hblank
          cases hblank
      · exact h
    have hrest : visibleHead more <+: more ++ gap :=
      (List.takeWhile_prefix _).trans (List.prefix_append ..)
    rw [List.append_assoc]
    exact .cons hbefore (hword.of_visibleHead hrest) (ih rfl)

def indentation (cs : List Char) : Nat :=
  (cs.takeWhile isWhiteSpace).length

theorem exists_append_trim (cs : List Char) :
    ∃ gap, IsBlank gap ∧ cs = cs.takeWhile isWhiteSpace ++ (trim cs ++ gap) := by
  let body := cs.dropWhile isWhiteSpace
  refine ⟨(body.reverse.takeWhile isWhiteSpace).reverse, ?_, ?_⟩
  · intro c hc
    exact List.mem_takeWhile_imp (List.mem_reverse.mp hc)
  · rw [trim, ← List.reverse_append, List.takeWhile_append_dropWhile, List.reverse_reverse,
      List.takeWhile_append_dropWhile]

end

private theorem Lexeme.toOption_scan (pos pos' : Nat) (c : Char) (cs : List Char) :
    (scan pos c cs).toOption = (scan pos' c cs).toOption := by
  unfold scan
  cases ofSign? c with
  | some sign => rfl
  | none =>
    dsimp only
    split
    · cases (Literal.scan (c :: cs)).value? <;> rfl
    · split
      · cases ofName? (String.ofList (lowercase (wordAt (c :: cs)))) <;> rfl
      · rfl

namespace Token

/-- A text that stands further behind has the same tokens further behind. -/
theorem toOption_scanFrom_add (k pos skip : Nat) (cs : List Char) :
    (scanFrom (pos + k) skip cs).toOption =
      (scanFrom pos skip cs).toOption.map (List.map (move (· + k))) := by
  induction cs generalizing pos skip with
  | nil => rfl
  | cons c cs ih =>
    have hnext (skip : Nat) := ih (pos + 1) skip
    rw [Nat.add_right_comm] at hnext
    cases skip with
    | succ skip => exact hnext skip
    | zero =>
      rw [toOption_scanFrom_cons, toOption_scanFrom_cons, Lexeme.toOption_scan (pos + k) pos]
      split
      · exact hnext 0
      · cases Lexeme.scan pos c cs with
        | error e => rfl
        | ok x =>
          change (scanFrom (pos + k + 1) (x.2 - 1) cs).toOption.map _ =
            ((scanFrom (pos + 1) (x.2 - 1) cs).toOption.map _).map _
          rw [hnext, Option.map_map, Option.map_map]
          rfl

/-- White space at the ends of a text can be left out. -/
theorem scan_trim {cs : List Char} {ts : List Token} (h : scan cs = .ok ts) :
    ∃ us, scan (trim cs) = .ok us ∧ ts = us.map (move (· + indentation cs)) := by
  obtain ⟨gap, hgap, heq⟩ := exists_append_trim cs
  have hfront : IsBlank (cs.takeWhile isWhiteSpace) := fun c hc => List.mem_takeWhile_imp hc
  have hscan : scanFrom (0 + indentation cs) 0 (trim cs ++ gap) = .ok ts := by
    rw [indentation, ← scanFrom_blank_append hfront, ← heq]
    exact h
  obtain ⟨extents, htiles, rfl⟩ := tiles_of_scanFrom hscan
  have htrim := toOption_scanFrom_add (indentation cs) 0 0 (trim cs)
  rw [scanFrom_of_tiles (htiles.of_append_blank hgap)] at htrim
  cases hus : scan (trim cs) with
  | error e =>
    rw [scan] at hus
    rw [hus] at htrim
    cases htrim
  | ok us =>
    rw [scan] at hus
    rw [hus] at htrim
    exact ⟨us, rfl, Option.some.inj htrim⟩

end Token
end FormulaRoots
