/-!
# Comparisons

The six comparisons of a condition. Exchanging the sides of a comparison flips its direction and
leaves (in)equality as it is.
-/

namespace StatScript

/-- How two values are compared. -/
inductive Comparison where
  | equal
  | notEqual
  | less
  | lessEqual
  | greater
  | greaterEqual
deriving DecidableEq, Repr

namespace Comparison

/-- The symbol of a comparison, in scripts and in the target. -/
def symbol : Comparison → String
  | equal => "=="
  | notEqual => "!="
  | less => "<"
  | lessEqual => "<="
  | greater => ">"
  | greaterEqual => ">="

/-- The comparison that holds of the exchanged sides. -/
def flipped : Comparison → Comparison
  | less => greater
  | lessEqual => greaterEqual
  | greater => less
  | greaterEqual => lessEqual
  | same => same

/-- All comparisons. -/
def all : List Comparison :=
  [equal, notEqual, less, lessEqual, greater, greaterEqual]

/-- The comparison with a given symbol. -/
def ofSymbol? (symbol : String) : Option Comparison :=
  all.find? fun comparison => comparison.symbol = symbol

/-- Whether a comparison holds between two 64-bit values. -/
def holds : Comparison → Int64 → Int64 → Bool
  | equal, a, b => a = b
  | notEqual, a, b => a ≠ b
  | less, a, b => a < b
  | lessEqual, a, b => a ≤ b
  | greater, a, b => b < a
  | greaterEqual, a, b => b ≤ a

end Comparison

/-- One condition of a conditional, in the form in which the target reads it. -/
structure Condition where
  text : String
deriving DecidableEq, Repr

end StatScript
