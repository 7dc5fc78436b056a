/-!
# Whole numbers in text

A numeral is an optional sign and at least one ASCII digit, and nothing else. A reader accepts it
only if its value is in the range of the number wanted.
-/

namespace StatScript.Text

/-- The value of a non-empty run of ASCII digits. -/
def digits? (cs : List Char) : Option Nat :=
  if cs ≠ [] ∧ cs.all Char.isDigit then some (Nat.ofDigitChars 10 cs 0) else none

/-- The value of a run of digits with an optional sign in front. -/
def integer? : List Char → Option Int
  | '+' :: cs => (digits? cs).map Int.ofNat
  | '-' :: cs => (digits? cs).map fun n => -Int.ofNat n
  | cs => (digits? cs).map Int.ofNat

/-- Reads a 64-bit signed integer. -/
def long? (s : String) : Option Int64 := do
  let n ← integer? s.toList
  if Int64.minValue.toInt ≤ n ∧ n ≤ Int64.maxValue.toInt then some (Int64.ofInt n) else none

/-- Reads a count: no minus sign, and at most 64 bits. -/
def count? (s : String) : Option Nat := do
  let n ← match s.toList with
    | '+' :: cs => digits? cs
    | cs => digits? cs
  if n < UInt64.size then some n else none

end StatScript.Text
