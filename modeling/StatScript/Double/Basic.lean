/-!
# Double-precision numbers

A double is kept as its 64 bits: a sign, eleven bits of exponent and 52 bits of fraction. A finite
one is `mantissa · 2 ^ scale` up to sign. Scripts only store and write doubles, so no arithmetic is
defined, and every question about the value is answered in whole numbers.
-/

namespace StatScript

/-- A double by its bits; two NaNs with different bits are different doubles. -/
structure Double where
  bits : UInt64
deriving DecidableEq, Repr

namespace Double

/-- The value of the lowest exponent bit, `2 ^ 52`: the fraction takes the bits below. -/
def fractionSize : Nat := 0x10000000000000

/-- The value of the sign bit, `2 ^ 63`. -/
def signSize : Nat := 0x8000000000000000

/-- The scale of the smallest doubles. -/
def minScale : Int := -1074

/-- The bits of positive infinity. -/
def infinityBits : Nat := 0x7FF0000000000000

/-- Whether the sign bit is set. It is for `-0.0` too. -/
def negative (d : Double) : Bool :=
  signSize ≤ d.bits.toNat

/-- The bits without the sign. -/
def magnitude (d : Double) : Nat :=
  d.bits.toNat % signSize

/-- The exponent field. -/
def exponentField (d : Double) : Nat :=
  d.magnitude / fractionSize

/-- The fraction field. -/
def fractionField (d : Double) : Nat :=
  d.magnitude % fractionSize

/-- Infinities and NaNs have a full exponent field; every other double is a number. -/
def isFinite (d : Double) : Bool :=
  d.magnitude < infinityBits

/-- Bits above those of infinity stand for no number. -/
def isNaN (d : Double) : Bool :=
  infinityBits < d.magnitude

/-- The whole number that the scale applies to. A zero exponent field has no implied bit. -/
def mantissa (d : Double) : Nat :=
  if d.exponentField = 0 then d.fractionField else d.fractionField + fractionSize

/-- The power of two that the mantissa is multiplied with. -/
def scale (d : Double) : Int :=
  minScale + (d.exponentField - 1 : Nat)

/-- The number of binary places behind the point. -/
def places (d : Double) : Nat :=
  (-d.scale).toNat

/-- A finite double without a fractional part. -/
def isWhole (d : Double) : Bool :=
  d.isFinite && d.mantissa % Nat.pow 2 d.places = 0

/-- The double with the given sign and magnitude bits. -/
def ofMagnitude (negative : Bool) (magnitude : Nat) : Double :=
  ⟨UInt64.ofNat (if negative then magnitude + signSize else magnitude)⟩

end Double

end StatScript
