/-! Log messages as data. -/
namespace FormulaRoots

inductive LogLevel where
  | warn
  | debug
  | trace
  deriving DecidableEq, Repr

namespace LogLevel

def name : LogLevel → String
  | warn => "WARN"
  | debug => "DEBUG"
  | trace => "TRACE"

def rank : LogLevel → Nat
  | warn => 0
  | debug => 1
  | trace => 2

/-- Whether a message of level `l` is kept when the least severe level asked for is `threshold`. -/
def isKeptAt (threshold l : LogLevel) : Bool :=
  decide (l.rank ≤ threshold.rank)

end LogLevel

structure LogEntry where
  level : LogLevel
  message : String
  deriving DecidableEq, Repr

end FormulaRoots
