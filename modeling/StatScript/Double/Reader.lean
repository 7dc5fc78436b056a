import StatScript.Double.Basic
import StatScript.Text.Numeral

/-!
# Doubles from text

A decimal is an optional sign, digits with at most one point among them (at least one digit in
all), and an optional exponent. `inf`, `infinity` and `nan` in any case are read too. The value is
rounded to the nearest double, halfway points to the even mantissa; what is too large becomes
infinite.
-/

namespace StatScript.Double

/-! ## Rounding a ratio -/

/-- The quotient rounded to the nearest whole number, halfway points to the even one. -/
def roundHalfEven (num den : Nat) : Nat :=
  let quotient := num / den
  let rest := num % den
  if 2 * rest < den ∨ (2 * rest = den ∧ quotient % 2 = 0) then quotient else quotient + 1

/-- `num / den / 2 ^ scale`, rounded. -/
def roundAtScale (num den : Nat) (scale : Int) : Nat :=
  roundHalfEven (num * Nat.pow 2 (-scale).toNat) (den * Nat.pow 2 scale.toNat)

/-- The scale at which a positive ratio has a mantissa of 53 bits, or the smallest scale. -/
def scaleOf (num den : Nat) : Int :=
  let guess : Int := (num.log2 : Int) - den.log2 - 53
  let wide := num * Nat.pow 2 (-guess).toNat / (den * Nat.pow 2 guess.toNat)
  max minScale (if 2 * fractionSize ≤ wide then guess + 1 else guess)

/-- The magnitude bits of the double nearest to a positive ratio. A mantissa that rounds up to the
next power of two carries into the exponent field. -/
def magnitudeOfRatio (num den : Nat) : Nat :=
  let scale := scaleOf num den
  let bits := (scale - minScale).toNat * fractionSize + roundAtScale num den scale
  min bits infinityBits

/-- The magnitude bits of the double nearest to `digits · 10 ^ exponent`. Far beyond the ends of
the range the power of ten is not formed. -/
def magnitudeOfDecimal (digits : Nat) (exponent : Int) : Nat :=
  let size : Int := digits.repr.length + exponent
  if digits = 0 ∨ size < -330 then 0
  else if 310 < size then infinityBits
  else magnitudeOfRatio (digits * Nat.pow 10 exponent.toNat) (Nat.pow 10 (-exponent).toNat)

/-! ## Reading -/

/-- The exponent behind the mark: an optional sign and at least one digit. -/
def exponent? : List Char → Option Int
  | [] => some 0
  | c :: cs => if c = 'e' ∨ c = 'E' then Text.integer? cs else none

/-- The magnitude bits of unsigned decimal text. -/
def decimal? (cs : List Char) : Option Nat := do
  let whole := cs.takeWhile Char.isDigit
  let rest := cs.dropWhile Char.isDigit
  let (part, tail) := match rest with
    | '.' :: more => (more.takeWhile Char.isDigit, more.dropWhile Char.isDigit)
    | _ => ([], rest)
  let digits ← Text.digits? (whole ++ part)
  let exponent ← exponent? tail
  return magnitudeOfDecimal digits (exponent - part.length)

/-- The magnitude bits of unsigned text. -/
def magnitude? (cs : List Char) : Option Nat :=
  let name := String.ofList (cs.map Char.toLower)
  if name = "inf" ∨ name = "infinity" then some infinityBits
  else if name = "nan" then some (infinityBits + fractionSize / 2)
  else decimal? cs

/-- Reads a double. -/
def ofText? (s : String) : Option Double :=
  match s.toList with
  | '-' :: cs => (magnitude? cs).map (ofMagnitude true)
  | '+' :: cs => (magnitude? cs).map (ofMagnitude false)
  | cs => (magnitude? cs).map (ofMagnitude false)

end StatScript.Double
