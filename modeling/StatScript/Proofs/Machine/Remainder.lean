import Mathlib.Data.Int.ModEq
import StatScript.Lowering.Arithmetic
import StatScript.Proofs.Machine.Wrapping

/-!
# Remainders in 64 bits

The machine divides toward zero and has no remainder of its own. A remainder that was taken off by a product
has the sign of the dividend; moved by the divisor and taken once more it has the sign of the divisor; and only
if it is negative then, it is one divisor away from the remainder that is never negative.

Results:
1. `sub_div_mul`: dividing, multiplying back and taking off leaves the remainder, although the quotient may wrap.
2. `tmod_add_tmod`: the remainder that is moved and taken once more is the one that goes with the floor.
3. `toInt_modulo`: this holds in 64 bits too, while twice the divisor fits.
4. `toInt_modulo_eq_emod_iff`: with a positive divisor it holds just if the move stays within 64 bits.
5. `emod_eq_fmod`, `eq_emod_iff`: the correction, and what it leads to.
6. `quotient_pivot`, `quotient_pivot_beyond`: moved up by the pivot and divided by it, a number shows whether it
   is negative, and what it shows where the pivot does not reach.
-/

namespace StatScript

/-! ## Remainders by division -/

/-- The only quotient that wraps is wrapped back by the product. -/
theorem sub_div_mul (a b : Int64) : a - a / b * b = a % b := by
  have quotient : Int64.ofInt (a.toInt.tdiv b.toInt) = a / b := by
    rw [Int64.ofInt_tdiv (isLong_toInt a).1 (isLong_toInt a).2 (isLong_toInt b).1 (isLong_toInt b).2,
      Int64.ofInt_toInt, Int64.ofInt_toInt]
  rw [← Int64.ofInt_toInt (a % b), Int64.toInt_mod, Int.tmod_def, Int64.ofInt_sub, Int64.ofInt_mul,
    quotient, Int64.ofInt_toInt, Int64.ofInt_toInt, Int64.mul_comm]

theorem natAbs_tmod_lt (x : Int) {d : Int} (nonzero : d ≠ 0) : (x.tmod d).natAbs < d.natAbs := by
  rw [Int.natAbs_tmod]
  exact Nat.mod_lt _ (Int.natAbs_pos.mpr nonzero)

theorem tmod_emod (x d : Int) : x.tmod d % d = x % d := by
  rw [Int.tmod_def, Int.sub_mul_emod_self_left]

/-! ## The sign of the divisor -/

theorem tmod_add_tmod_of_pos (x : Int) {d : Int} (positive : 0 < d) :
    (x.tmod d + d).tmod d = x.fmod d := by
  have nonneg : 0 ≤ x.tmod d + d := by
    have bound := Int.lt_tmod_of_pos x positive
    omega
  rw [Int.tmod_eq_emod_of_nonneg nonneg, Int.add_emod_right, tmod_emod,
    Int.fmod_eq_emod_of_nonneg _ (Int.le_of_lt positive)]

/-- The remainder that is moved by the divisor and taken once more is the one that goes with the floor. -/
theorem tmod_add_tmod (x d : Int) : (x.tmod d + d).tmod d = x.fmod d := by
  rcases Int.lt_trichotomy d 0 with negative | rfl | positive
  · have mirrored := tmod_add_tmod_of_pos (-x) (Int.neg_pos_of_neg negative)
    rw [Int.neg_fmod_neg, Int.tmod_neg, Int.tmod_neg, Int.neg_tmod, ← Int.neg_add,
      Int.neg_tmod] at mirrored
    exact Int.neg_inj.mp mirrored
  · rw [Int.add_zero, Int.tmod_zero, Int.tmod_zero, Int.fmod_zero]
  · exact tmod_add_tmod_of_pos x positive

theorem natAbs_fmod_lt (x : Int) {d : Int} (nonzero : d ≠ 0) : (x.fmod d).natAbs < d.natAbs := by
  rw [← tmod_add_tmod]
  exact natAbs_tmod_lt _ nonzero

/-- This holds in 64 bits where the remainder is moved without wrapping. -/
theorem toInt_modulo_of_isLong {a b : Int64} (long : IsLong (a.toInt.tmod b.toInt + b.toInt)) :
    ((a % b + b) % b).toInt = a.toInt.fmod b.toInt := by
  have moved : (a % b + b).toInt = a.toInt.tmod b.toInt + b.toInt := by
    rw [← long.toInt_ofInt, Int64.ofInt_add, ← Int64.toInt_mod, Int64.ofInt_toInt, Int64.ofInt_toInt]
  rw [Int64.toInt_mod, moved, tmod_add_tmod]

/-- A divisor up to the pivot moves the remainder without wrapping. -/
theorem toInt_modulo (a : Int64) {b : Int64} (nonzero : b.toInt ≠ 0)
    (small : b.toInt.natAbs ≤ 2 ^ 62) : ((a % b + b) % b).toInt = a.toInt.fmod b.toInt := by
  have bound := natAbs_tmod_lt a.toInt nonzero
  exact toInt_modulo_of_isLong (isLong_of_natAbs (by omega))

/-- A remainder that is moved beyond 64 bits turns negative, and no remainder of it is positive. -/
theorem toInt_modulo_nonpos {a b : Int64} (positive : 0 < b.toInt)
    (large : 2 ^ 63 ≤ a.toInt.tmod b.toInt + b.toInt) : ((a % b + b) % b).toInt ≤ 0 := by
  have most := Int.tmod_lt_of_pos a.toInt positive
  have bound := b.toInt_lt
  have wrapped : (a % b + b).toInt = a.toInt.tmod b.toInt + b.toInt - 2 ^ 64 := by
    rw [Int64.toInt_add, Int64.toInt_mod, Int.bmod_eq_emod]
    split <;> omega
  have nonneg : 0 ≤ -(a % b + b).toInt := by omega
  have mirrored := Int.tmod_nonneg b.toInt nonneg
  rw [Int.neg_tmod] at mirrored
  rw [Int64.toInt_mod]
  omega

/-- With a positive divisor, what is left is the remainder that is never negative just if it was moved without
wrapping. -/
theorem toInt_modulo_eq_emod_iff (a : Int64) {b : Int64} (positive : 0 < b.toInt) :
    ((a % b + b) % b).toInt = a.toInt % b.toInt ↔ a.toInt.tmod b.toInt + b.toInt ≤ 2 ^ 63 - 1 := by
  have least := Int.lt_tmod_of_pos a.toInt positive
  have most := Int.tmod_lt_of_pos a.toInt positive
  have bound := b.toInt_lt
  constructor
  · intro same
    by_contra large
    -- The sum of two numbers of 64 bits is too large, so the remainder among them is positive.
    have remainder : a.toInt % b.toInt = a.toInt.tmod b.toInt := by
      rw [← tmod_emod, Int.emod_eq_of_lt (by omega) most]
    have nonpos := @toInt_modulo_nonpos a b positive (by omega)
    omega
  · intro small
    rw [toInt_modulo_of_isLong (isLong_iff.mpr (by omega)),
      Int.fmod_eq_emod_of_nonneg _ (Int.le_of_lt positive)]

/-! ## No sign -/

/-- A negative remainder is one divisor away from the one that is never negative. -/
theorem emod_eq_fmod (x : Int) {d : Int} (nonzero : d ≠ 0) :
    x % d = if x.fmod d < 0 then x.fmod d - d else x.fmod d := by
  have least := Int.emod_nonneg x nonzero
  have most := Int.emod_lt x nonzero
  rw [Int.fmod_eq_emod]
  by_cases upward : 0 ≤ d ∨ d ∣ x
  · rw [if_pos upward, Int.add_zero, if_neg (Int.not_lt.mpr least)]
  · have negative : d < 0 := Int.not_le.mp fun nonneg => upward (.inl nonneg)
    rw [if_neg upward, if_pos (by omega)]
    omega

/-- There is one number below the size of the divisor that is not negative and congruent. -/
theorem eq_emod_iff (x r : Int) {d : Int} (nonzero : d ≠ 0) :
    r = x % d ↔ 0 ≤ r ∧ r < |d| ∧ r ≡ x [ZMOD d] := by
  constructor
  · rintro rfl
    exact ⟨Int.emod_nonneg x nonzero, Int.emod_lt_abs x nonzero, Int.mod_modEq x d⟩
  · rintro ⟨least, most, congruent⟩
    rw [← congruent.eq, ← Int.emod_abs, Int.emod_eq_of_lt least most]

/-! ## The pivot -/

/-- Moved up by the pivot and divided by it, a number shows whether it is negative. -/
theorem quotient_pivot {x : Int64} (above : -2 ^ 63 < x.toInt) (below : x.toInt < 2 ^ 62) :
    (x + Emit.pivot) / Emit.pivot = if x.toInt < 0 then 0 else 1 := by
  have pivot : Emit.pivot.toInt = 2 ^ 62 := rfl
  have long : IsLong (x.toInt + 2 ^ 62) := isLong_iff.mpr (by omega)
  have moved : x + Emit.pivot = Int64.ofInt (x.toInt + 2 ^ 62) := by
    rw [← pivot, Int64.ofInt_add, Int64.ofInt_toInt, Int64.ofInt_toInt]
  have quotient : (x + Emit.pivot) / Emit.pivot = Int64.ofInt ((x.toInt + 2 ^ 62).tdiv (2 ^ 62)) := by
    rw [moved, Int64.ofInt_tdiv long.1 long.2 (by decide) (by decide), ← pivot, Int64.ofInt_toInt]
  rw [quotient]
  split_ifs with negative
  · have none : (x.toInt + 2 ^ 62).tdiv (2 ^ 62) = 0 := by
      refine Int.natAbs_eq_zero.mp ?_
      rw [Int.natAbs_tdiv]
      exact Nat.div_eq_of_lt (by omega)
    rw [none]
    rfl
  · have one : (x.toInt + 2 ^ 62).tdiv (2 ^ 62) = 1 := by
      rw [Int.tdiv_eq_ediv_of_nonneg (by omega)]
      omega
    rw [one]
    rfl

/-- Beyond the reach of the pivot a number is moved to the negative side, or stays there, and so does its
quotient. -/
theorem quotient_pivot_beyond {x : Int64} (beyond : x.toInt = -2 ^ 63 ∨ 2 ^ 62 ≤ x.toInt) :
    (x + Emit.pivot) / Emit.pivot = -1 ∨ (x + Emit.pivot) / Emit.pivot = -2 := by
  have pivot : Emit.pivot.toInt = 2 ^ 62 := rfl
  have least := (x + Emit.pivot).le_toInt
  have moved : (x + Emit.pivot).toInt ≤ -2 ^ 62 := by
    have most := x.toInt_lt
    rw [Int64.toInt_add, pivot, Int.bmod_eq_emod]
    split <;> omega
  have quotient : ((x + Emit.pivot) / Emit.pivot).toInt = -(-(x + Emit.pivot).toInt / 2 ^ 62) := by
    rw [Int64.toInt_div_of_ne_right _ _ (by decide), pivot, ← Int.tdiv_eq_ediv_of_nonneg (by omega),
      Int.neg_tdiv, Int.neg_neg]
  have one : (-1 : Int64).toInt = -1 := rfl
  have two : (-2 : Int64).toInt = -2 := rfl
  rw [← Int64.toInt_inj, ← Int64.toInt_inj, quotient]
  omega

end StatScript
