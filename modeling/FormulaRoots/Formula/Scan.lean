import FormulaRoots.Decimal.Literal
import FormulaRoots.Formula.Error
import FormulaRoots.Unicode.Alphabetic
import FormulaRoots.Unicode.Lowercase
import FormulaRoots.Unicode.WhiteSpace

/-! From text to tokens. Each lexeme is taken as far as it goes, and white space separates lexemes
without meaning anything itself. -/
namespace FormulaRoots
open Unicode

def wordAt (cs : List Char) : List Char :=
  cs.takeWhile isAlphabetic

def nextVisible? (cs : List Char) : Option Char :=
  cs.find? fun c => !isWhiteSpace c

/-- Why a name is refused: as a function if an argument follows, otherwise as an identifier. -/
def FormulaError.unknownName (name : String) (pos : Nat) (rest : List Char) : FormulaError :=
  if nextVisible? rest = some '(' then unknownFunction name pos else unknownIdentifier name pos

def Lexeme.scan (pos : Nat) (c : Char) (cs : List Char) : Except FormulaError (Lexeme × Nat) :=
  match ofSign? c with
  | some lexeme => .ok (lexeme, 1)
  | none =>
    if Literal.isMantissaChar c then
      let literal := Literal.scan (c :: cs)
      match literal.value? with
      | some v => .ok (number v, literal.chars.length)
      | none => .error (.invalidNumber (String.ofList literal.chars) pos)
    else if isAlphabetic c then
      let word := wordAt (c :: cs)
      let name := String.ofList (lowercase word)
      match ofName? name with
      | some lexeme => .ok (lexeme, word.length)
      | none => .error (.unknownName name pos ((c :: cs).drop word.length))
    else .error (.unexpectedChar c pos)

/-- The tokens of a text that stands at `pos` and whose first `skip` characters belong to a lexeme
already taken. -/
def Token.scanFrom (pos skip : Nat) : List Char → Except FormulaError (List Token)
  | [] => .ok []
  | c :: cs =>
    match skip with
    | skip + 1 => scanFrom (pos + 1) skip cs
    | 0 =>
      if isWhiteSpace c then scanFrom (pos + 1) 0 cs
      else do
        let (lexeme, length) ← Lexeme.scan pos c cs
        let rest ← scanFrom (pos + 1) (length - 1) cs
        return ⟨lexeme, pos⟩ :: rest

def Token.scan (cs : List Char) : Except FormulaError (List Token) :=
  scanFrom 0 0 cs

/-- Skipping characters is going on behind them. -/
theorem Token.scanFrom_skip (pos skip : Nat) (cs : List Char) :
    scanFrom pos skip cs = scanFrom (pos + skip) 0 (cs.drop skip) := by
  induction cs generalizing pos skip with
  | nil => simp [scanFrom]
  | cons c cs ih =>
    cases skip with
    | zero => rfl
    | succ skip =>
      rw [scanFrom, ih, List.drop_succ_cons]
      congr 1
      omega

end FormulaRoots
