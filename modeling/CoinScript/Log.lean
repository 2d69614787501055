import CoinScript.Bytes

/-!
# Log entries

What stacks, latches and evaluations report while they work: a level, a message and named values.
-/

namespace CoinScript.Log

inductive Level where
  | trace
  | debug
  | warn
  deriving DecidableEq, Repr

def Level.name : Level → String
  | .trace => "TRACE"
  | .debug => "DEBUG"
  | .warn => "WARN"

/-- The value of a field. -/
inductive Value where
  | number (n : Nat)
  | text (s : String)
  deriving DecidableEq, Repr

/-- One line of a log. -/
structure Entry where
  level : Level
  message : String
  fields : List (String × Value) := []
  deriving DecidableEq, Repr

/-- A list in brackets, its items separated by commas. -/
def bracketed (items : List String) : String := "[" ++ ", ".intercalate items ++ "]"

/-- A byte string as a bracketed list of decimal numbers. -/
def decimalBytes (bytes : Bytes) : String := bracketed (bytes.map fun b => toString b.toNat)

end CoinScript.Log
