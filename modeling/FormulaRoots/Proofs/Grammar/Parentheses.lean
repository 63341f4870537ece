import Mathlib.Data.List.Induction
import FormulaRoots.Proofs.Grammar.Derivation

/-! Matching parentheses by counting. Whether the parentheses of a token list match, which `)` is the first
to close nothing and which `(` is the first to stay open are told by the heights of its prefixes. -/
namespace FormulaRoots.Grammar

def rise : Lexeme → Int
  | .openParen => 1
  | .closeParen => -1
  | _ => 0

def height (ts : List Token) : Int :=
  (ts.map Token.lexeme).count .openParen - (ts.map Token.lexeme).count .closeParen

def NeverBelow (n : Int) (ts : List Token) : Prop :=
  ∀ p, p <+: ts → 0 ≤ n + height p

def Balanced (ts : List Token) : Prop :=
  NeverBelow 0 ts ∧ height ts = 0

/-- The token `t` between `before` and `after` is a parenthesis that is never closed. -/
def StaysOpen (before : List Token) (t : Token) (after : List Token) : Prop :=
  t.lexeme = .openParen ∧ ∀ p, p <+: after → height before < height (before ++ t :: p)

section
variable {n : Int} {pos : Nat} {opened : List Nat} {t : Token} {ts us : List Token}

private theorem rise_neg_iff {x : Lexeme} : rise x < 0 ↔ x = .closeParen := by
  cases x <;> simp [rise]

private theorem rise_pos_iff {x : Lexeme} : 0 < rise x ↔ x = .openParen := by
  cases x <;> simp [rise]

@[simp]
private theorem height_nil : height [] = 0 := rfl

@[simp]
theorem height_append (ts us : List Token) : height (ts ++ us) = height ts + height us := by
  simp only [height, List.map_append, List.count_append]
  omega

@[simp]
theorem height_cons (t : Token) (ts : List Token) : height (t :: ts) = rise t.lexeme + height ts := by
  obtain ⟨lexeme, pos⟩ := t
  cases lexeme <;> simp [height, rise] <;> omega

private theorem neverBelow_zero : NeverBelow 0 ts ↔ ∀ p, p <+: ts → 0 ≤ height p := by
  simp only [NeverBelow, Int.zero_add]

theorem neverBelow_nil : NeverBelow n [] ↔ 0 ≤ n := by
  simp [NeverBelow]

private theorem neverBelow_cons : NeverBelow n (t :: ts) ↔ 0 ≤ n ∧ NeverBelow
    (n + rise t.lexeme) ts := by
  constructor
  · intro h
    refine ⟨by simpa using h [] List.nil_prefix, fun p hp => ?_⟩
    have hlonger := h (t :: p) ((List.prefix_cons_inj t).mpr hp)
    rw [height_cons] at hlonger
    omega
  · rintro ⟨hn, h⟩ p hp
    rcases List.prefix_cons_iff.mp hp with rfl | ⟨q, rfl, hq⟩
    · simpa using hn
    · have hshorter := h q hq
      rw [height_cons]
      omega

private theorem neverBelow_append : NeverBelow n (ts ++ us) ↔ NeverBelow n ts ∧ NeverBelow
    (n + height ts) us := by
  induction ts generalizing n with
  | nil =>
    rw [List.nil_append, height_nil, Int.add_zero, neverBelow_nil]
    exact ⟨fun h => ⟨by simpa using h [] List.nil_prefix, h⟩, And.right⟩
  | cons t ts ih =>
    rw [List.cons_append, neverBelow_cons, neverBelow_cons, ih, height_cons, Int.add_assoc, and_assoc]

private theorem NeverBelow.start (h : NeverBelow n ts) : 0 ≤ n := by
  simpa using h [] List.nil_prefix

theorem NeverBelow.final (h : NeverBelow n ts) : 0 ≤ n + height ts :=
  h ts List.prefix_rfl

private theorem NeverBelow.of_le {m : Int} (h : NeverBelow m ts) (hle : m ≤ n) : NeverBelow n ts := by
  intro p hp
  have := h p hp
  omega

/-! ### The stack of open parentheses -/

private theorem checkParens_step (opened : List Nat) (t : Token) :
    (opened = [] ∧ t.lexeme = .closeParen ∧
      ∀ ts, checkParens [] (t :: ts) = .error (.unmatchedCloseParen t.pos)) ∨
    ∃ next : List Nat, (next.length : Int) = opened.length + rise t.lexeme ∧
      ∀ below ts, checkParens (opened ++ below) (t :: ts) = checkParens (next ++ below) ts := by
  obtain ⟨lexeme, pos⟩ := t
  cases lexeme with
  | openParen => exact .inr ⟨pos :: opened, rfl, fun _ _ => rfl⟩
  | closeParen =>
    cases opened with
    | nil => exact .inl ⟨rfl, rfl, fun _ => rfl⟩
    | cons o outer => exact .inr ⟨outer, by rw [rise, List.length_cons]; omega, fun _ _ => rfl⟩
  | _ => exact .inr ⟨opened, (Int.add_zero _).symm, fun _ _ => rfl⟩

private theorem checkParens_cases (opened : List Nat) (t : Token) :
    (opened = [] ∧ t.lexeme = .closeParen ∧
      ∀ ts, checkParens [] (t :: ts) = .error (.unmatchedCloseParen t.pos)) ∨
    ∃ next : List Nat, (next.length : Int) = opened.length + rise t.lexeme ∧
      ∀ ts, checkParens opened (t :: ts) = checkParens next ts := by
  refine (checkParens_step opened t).imp_right fun ⟨next, hlength, hstep⟩ => ⟨next, hlength, fun ts => ?_⟩
  simpa only [List.append_nil] using hstep [] ts

/-- Scanning ends well if all parentheses on the stack are closed, and none that is not open. -/
theorem checkParens_eq_ok_iff :
    checkParens opened ts = .ok () ↔ NeverBelow opened.length ts ∧ opened.length + height ts = 0 := by
  induction ts generalizing opened with
  | nil =>
    cases opened with
    | nil => simp [checkParens, neverBelow_nil]
    | cons pos outer =>
      simp [checkParens, List.getLast?_cons]
      omega
  | cons t ts ih =>
    rw [neverBelow_cons, height_cons, ← Int.add_assoc]
    rcases checkParens_cases opened t with ⟨rfl, hclose, hfail⟩ | ⟨next, hlength, hstep⟩
    · rw [hfail, hclose, rise]
      constructor
      · intro h
        cases h
      · exact fun h => absurd h.1.2.start (by decide)
    · rw [hstep, ih, hlength, and_iff_right (Int.natCast_nonneg _)]

theorem checkParens_nil_eq_ok_iff : checkParens [] ts = .ok () ↔ Balanced ts := by
  rw [checkParens_eq_ok_iff, Balanced, List.length_nil]
  simp

instance (ts : List Token) : Decidable (Balanced ts) :=
  match h : checkParens [] ts with
  | .ok () => .isTrue (checkParens_nil_eq_ok_iff.mp h)
  | .error _ => .isFalse fun hts => by
    rw [checkParens_nil_eq_ok_iff.mpr hts] at h
    cases h

private theorem checkParens_append (h : checkParens opened ts = .ok ()) (us : List Token) :
    checkParens opened (ts ++ us) = checkParens [] us := by
  induction ts generalizing opened with
  | nil =>
    cases opened with
    | nil => rfl
    | cons pos outer => simp [checkParens, List.getLast?_cons] at h
  | cons t ts ih =>
    rw [List.cons_append]
    rcases checkParens_cases opened t with ⟨rfl, -, hfail⟩ | ⟨next, -, hstep⟩
    · rw [hfail] at h
      cases h
    · rw [hstep] at h ⊢
      exact ih h

private theorem checkParens_of_neverBelow (h : NeverBelow opened.length ts) (pos : Nat) :
    checkParens (opened ++ [pos]) ts = .error (.unmatchedOpenParen pos) := by
  induction ts generalizing opened with
  | nil => simp [checkParens]
  | cons t ts ih =>
    have hrest := (neverBelow_cons.mp h).2
    rcases checkParens_step opened t with ⟨rfl, hclose, -⟩ | ⟨next, hlength, hstep⟩
    · rw [hclose, rise] at hrest
      exact absurd hrest.start (by decide)
    · rw [← hlength] at hrest
      rw [hstep]
      exact ih hrest

/-- The first `)` that closes nothing stands behind tokens that close the whole stack. -/
theorem checkParens_eq_unmatchedClose_iff : checkParens opened ts = .error (.unmatchedCloseParen pos) ↔
    ∃ before last after, ts = before ++ last :: after ∧ last.lexeme = .closeParen ∧ last.pos = pos ∧
      checkParens opened before = .ok () := by
  constructor
  · intro h
    induction ts generalizing opened with
    | nil =>
      rw [checkParens] at h
      split at h <;> cases h
    | cons t ts ih =>
      rcases checkParens_cases opened t with ⟨rfl, hclose, hfail⟩ | ⟨next, -, hstep⟩
      · rw [hfail] at h
        cases h
        exact ⟨[], t, ts, rfl, hclose, rfl, rfl⟩
      · rw [hstep] at h
        obtain ⟨before, last, after, rfl, hclose, hpos, hbefore⟩ := ih h
        exact ⟨t :: before, last, after, rfl, hclose, hpos, (hstep before).trans hbefore⟩
  · rintro ⟨before, ⟨lexeme, place⟩, after, rfl, rfl, rfl, hbefore⟩
    rw [checkParens_append hbefore]
    rfl

private theorem neverBelow_of_unmatchedOpen
    (h : checkParens opened ts = .error (.unmatchedOpenParen pos)) :
    NeverBelow opened.length ts := by
  induction ts generalizing opened with
  | nil => exact neverBelow_nil.mpr (Int.natCast_nonneg _)
  | cons t ts ih =>
    rcases checkParens_cases opened t with ⟨rfl, -, hfail⟩ | ⟨next, hlength, hstep⟩
    · rw [hfail] at h
      cases h
    · rw [hstep] at h
      rw [neverBelow_cons, ← hlength]
      exact ⟨Int.natCast_nonneg _, ih h⟩

private theorem balanced_or_split (h : NeverBelow 0 ts) : Balanced ts ∨
    ∃ before t after, ts = before ++ t :: after ∧ t.lexeme = .openParen ∧ Balanced before ∧
      NeverBelow 0 after := by
  induction ts using List.reverseRecOn with
  | nil => exact .inl ⟨h, rfl⟩
  | append_singleton ts t ih =>
    have hend := h.final
    rcases ih (neverBelow_append.mp h).1 with hbalanced | ⟨before, o, after, rfl, hopen, hbefore, hafter⟩
    · by_cases hopen : t.lexeme = .openParen
      · exact .inr ⟨ts, t, [], rfl, hopen, hbalanced, neverBelow_nil.mpr (Int.le_refl 0)⟩
      · have hrise := Int.not_lt.mp (mt rise_pos_iff.mp hopen)
        refine .inl ⟨h, ?_⟩
        rw [height_append, hbalanced.2, height_cons, height_nil] at hend ⊢
        omega
    -- the new token closes the parenthesis, or it stays open
    · by_cases hlater : 0 ≤ height after + rise t.lexeme
      · refine .inr ⟨before, o, after ++ [t], by simp, hopen, hbefore, neverBelow_append.mpr ⟨hafter, ?_⟩⟩
        exact neverBelow_cons.mpr ⟨hafter.final, neverBelow_nil.mpr (by omega)⟩
      · refine .inl ⟨h, ?_⟩
        rw [height_append, height_append, height_cons, hbefore.2, hopen, rise, height_cons, height_nil]
          at hend ⊢
        omega

/-- The first `(` that stays open stands behind matching parentheses. -/
theorem checkParens_eq_unmatchedOpen_iff : checkParens [] ts = .error (.unmatchedOpenParen pos) ↔
    ∃ before t after, ts = before ++ t :: after ∧ t.lexeme = .openParen ∧ t.pos = pos ∧
      Balanced before ∧ NeverBelow 0 after := by
  have reported {before after : List Token} {t : Token} (hopen : t.lexeme = .openParen)
      (hbefore : Balanced before) (hafter : NeverBelow 0 after) :
      checkParens [] (before ++ t :: after) = .error (.unmatchedOpenParen t.pos) := by
    obtain ⟨lexeme, place⟩ := t
    subst hopen
    rw [checkParens_append (checkParens_nil_eq_ok_iff.mpr hbefore)]
    exact checkParens_of_neverBelow (show NeverBelow ([] : List Nat).length after from hafter) _
  constructor
  · intro h
    rcases balanced_or_split (neverBelow_of_unmatchedOpen h) with
      hbalanced | ⟨before, t, after, rfl, hopen, hbefore, hafter⟩
    · rw [checkParens_nil_eq_ok_iff.mpr hbalanced] at h
      cases h
    · rw [reported hopen hbefore hafter] at h
      cases h
      exact ⟨before, t, after, rfl, hopen, rfl, hbefore, hafter⟩
  · rintro ⟨before, t, after, rfl, hopen, rfl, hbefore, hafter⟩
    exact reported hopen hbefore hafter

/-! ### Heights alone -/

/-- A `)` closes nothing if and only if it ends the shortest prefix with more of them than `(`. -/
theorem unmatchedClose_iff_shortest : checkParens [] ts = .error (.unmatchedCloseParen pos) ↔
    ∃ before last after, ts = before ++ last :: after ∧ last.pos = pos ∧ height (before ++ [last]) < 0 ∧
      ∀ p, p <+: before → 0 ≤ height p := by
  rw [checkParens_eq_unmatchedClose_iff]
  refine exists_congr fun before => exists_congr fun last => exists_congr fun after => ?_
  refine and_congr_right fun _ => ?_
  rw [checkParens_nil_eq_ok_iff, Balanced, neverBelow_zero, height_append, height_cons, height_nil]
  constructor
  · rintro ⟨hlast, hpos, h, hzero⟩
    rw [hlast, rise]
    exact ⟨hpos, by omega, h⟩
  · rintro ⟨hpos, hneg, h⟩
    have hbefore := h before List.prefix_rfl
    have hlast : last.lexeme = .closeParen := rise_neg_iff.mp (by omega)
    rw [hlast, rise] at hneg
    exact ⟨hlast, hpos, h, by omega⟩

private theorem staysOpen_of_balanced {before after : List Token} (hopen : t.lexeme = .openParen)
    (hbefore : Balanced before) (hafter : NeverBelow 0 after) :
    StaysOpen before t after ∧ ∀ before' t' after', before ++ t :: after = before' ++ t' :: after' →
      StaysOpen before' t' after' → before.length ≤ before'.length := by
  refine ⟨⟨hopen, fun p hp => ?_⟩, fun before' t' after' heq hstays => ?_⟩
  · have := hafter p hp
    rw [height_append, height_cons, hopen, rise]
    omega
  · refine Nat.le_of_not_lt fun hlt => ?_
    obtain ⟨between, rfl, rfl⟩ : ∃ between, before = before' ++ t' :: between ∧
        after' = between ++ t :: after := by
      rcases List.append_eq_append_iff.mp heq with ⟨tail, rfl, -⟩ | ⟨tail, rfl, htail⟩
      · simp only [List.length_append] at hlt
        omega
      · cases tail with
        | nil => simp at hlt
        | cons u tail =>
          obtain ⟨rfl, rfl⟩ := List.cons.inj htail
          exact ⟨tail, rfl, rfl⟩
    have hrises := hstays.2 between (List.prefix_append ..)
    have hstart := hbefore.1 before' (List.prefix_append ..)
    rw [hbefore.2] at hrises
    omega

/-- A `(` is reported if and only if it is the earliest that stays open, and no prefix has more `)`. -/
theorem unmatchedOpen_iff_earliest : checkParens [] ts = .error (.unmatchedOpenParen pos) ↔
    (∀ p, p <+: ts → 0 ≤ height p) ∧ 0 < height ts ∧
    ∃ before t after, ts = before ++ t :: after ∧ t.pos = pos ∧ StaysOpen before t after ∧
      ∀ before' t' after', ts = before' ++ t' :: after' → StaysOpen before' t' after' →
        before.length ≤ before'.length := by
  constructor
  · intro h
    obtain ⟨before, t, after, rfl, hopen, hpos, hbefore, hafter⟩ := checkParens_eq_unmatchedOpen_iff.mp h
    obtain ⟨hstays, hearliest⟩ := staysOpen_of_balanced hopen hbefore hafter
    have hrise : rise t.lexeme = 1 := by rw [hopen, rise]
    have hnever : NeverBelow 0 (before ++ t :: after) := by
      rw [neverBelow_append, neverBelow_cons, hbefore.2, hrise]
      exact ⟨hbefore.1, Int.le_refl _, hafter.of_le (by decide)⟩
    refine ⟨neverBelow_zero.mp hnever, ?_, before, t, after, rfl, hpos, hstays, hearliest⟩
    have := hafter.final
    rw [height_append, height_cons, hbefore.2, hrise]
    omega
  · rintro ⟨hprefixes, hheight, before, t, after, rfl, rfl, hstays, hearliest⟩
    rcases balanced_or_split (neverBelow_zero.mpr hprefixes) with
      hbalanced | ⟨front, u, back, heq, hopen, hfront, hback⟩
    · rw [hbalanced.2] at hheight
      exact absurd hheight (Int.lt_irrefl 0)
    -- both are the earliest that stays open, so they are one token
    · obtain ⟨hstays', hearliest'⟩ := staysOpen_of_balanced hopen hfront hback
      have hle := hearliest front u back heq hstays'
      have hge := hearliest' before t after heq.symm hstays
      obtain ⟨-, htail⟩ := List.append_inj heq (Nat.le_antisymm hle hge)
      refine checkParens_eq_unmatchedOpen_iff.mpr ⟨front, u, back, heq, hopen, ?_, hfront, hback⟩
      rw [(List.cons.inj htail).1]

end
end FormulaRoots.Grammar
