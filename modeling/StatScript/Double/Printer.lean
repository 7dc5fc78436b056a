import StatScript.Double.Basic

/-!
# Doubles as text

A double is written positionally, never with an exponent. A whole one is written exactly with `.0`
behind it. Any other finite one is written with the fewest decimal places that still read back: its
neighbours on ever finer decimal grids are tried, and the first grid with one that rounds to the
double wins. The search ends because a double with `k` binary places is itself on the grid of `k`
decimal places.
-/

namespace StatScript.Double

/-! ## The values that round to a double

All are measured in quarters of the last binary place, so that both halfway points are whole. -/

/-- The double itself in quarters of its last place. -/
def quarters (d : Double) : Nat :=
  4 * d.mantissa

/-- The least value that can round to the double. Below a power of two the doubles are twice as
dense, unless no smaller scale exists. -/
def lowQuarters (d : Double) : Nat :=
  if d.fractionField = 0 ∧ 1 < d.exponentField then d.quarters - 1 else d.quarters - 2

/-- The greatest value that can round to the double. -/
def highQuarters (d : Double) : Nat :=
  d.quarters + 2

/-- Whether `point / 10 ^ p` rounds to the double of a negative scale. Halfway points go to the
even mantissa. -/
def roundsTo (d : Double) (p point : Nat) : Bool :=
  let scaled := point * Nat.pow 2 (d.places + 2)
  let low := d.lowQuarters * Nat.pow 10 p
  let high := d.highQuarters * Nat.pow 10 p
  if d.mantissa % 2 = 0 then low ≤ scaled && scaled ≤ high else low < scaled && scaled < high

/-! ## The shortest text -/

/-- The neighbour of the double on the grid of `p` decimal places that reads back, the nearer one
if both do, and the upper one if both are equally near. -/
def gridPoint? (d : Double) (p : Nat) : Option Nat :=
  let below := d.mantissa * Nat.pow 10 p / Nat.pow 2 d.places
  let rest := d.mantissa * Nat.pow 10 p % Nat.pow 2 d.places
  match d.roundsTo p below, d.roundsTo p (below + 1) with
  | true, true => some (if Nat.pow 2 d.places ≤ 2 * rest then below + 1 else below)
  | true, false => some below
  | false, true => some (below + 1)
  | false, false => none

/-- The coarsest grid from `p` on, at most `tries` of them, with a point that reads back. -/
def shortestFrom (d : Double) : (tries p : Nat) → Nat × Nat
  | 0, p => (p, d.mantissa * Nat.pow 10 p / Nat.pow 2 d.places)
  | tries + 1, p =>
      match d.gridPoint? p with
      | some point => (p, point)
      | none => shortestFrom d tries (p + 1)

/-- A number of decimal places and the point of that grid with the shortest text. -/
def shortest (d : Double) : Nat × Nat :=
  shortestFrom d d.places 1

/-- The digits of `n`, with zeros in front up to `width`. -/
def padded (width n : Nat) : String :=
  let digits := n.repr
  String.ofList (List.replicate (width - digits.length) '0') ++ digits

/-- The text of a double without its sign. -/
def magnitudeText (d : Double) : String :=
  if d.isNaN then "NaN"
  else if !d.isFinite then "inf"
  else if d.isWhole then (d.mantissa * Nat.pow 2 d.scale.toNat / Nat.pow 2 d.places).repr ++ ".0"
  else
    let (p, point) := d.shortest
    (point / Nat.pow 10 p).repr ++ "." ++ padded p (point % Nat.pow 10 p)

/-- The text of a double. A NaN has no sign, and negative zero keeps its own. -/
def text (d : Double) : String :=
  if d.negative && !d.isNaN then "-" ++ d.magnitudeText else d.magnitudeText

end StatScript.Double
