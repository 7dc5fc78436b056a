import StatScript.Machine
import Mathlib.Algebra.Order.Ring.Int
import Mathlib.Tactic.Ring

/-!
# Powers in 64 bits

The machine keeps whole numbers as far as 64 bits reach. Products wrap, so a product that leaves this
range and is then divided is divided after it has wrapped.

Results:
1. `IsLong.pow`: the lower powers of a number fit where a higher one does.
2. `ofInt_div`: the quotient of a product by one of its factors is the other factor if the product fits.
3. `ofInt_div_ne`, `ofInt_div_div_ne`: it never is if the product does not fit.
4. `ofInt_pow_div_iff`, `ofInt_pow_div_div_iff`: both for powers of one base.
-/

namespace StatScript

/-- A whole number that a cell can hold. -/
def IsLong (n : Int) : Prop :=
  Int64.minValue.toInt ≤ n ∧ n ≤ Int64.maxValue.toInt

instance (n : Int) : Decidable (IsLong n) :=
  inferInstanceAs (Decidable (_ ∧ _))

theorem isLong_iff {n : Int} : IsLong n ↔ -2 ^ 63 ≤ n ∧ n < 2 ^ 63 := by
  rw [IsLong, Int64.toInt_minValue, Int64.toInt_maxValue]
  omega

theorem isLong_toInt (number : Int64) : IsLong number.toInt :=
  isLong_iff.mpr ⟨number.le_toInt, number.toInt_lt⟩

theorem IsLong.toInt_ofInt {n : Int} (long : IsLong n) : (Int64.ofInt n).toInt = n :=
  Int64.toInt_ofInt_of_le (isLong_iff.mp long).1 (isLong_iff.mp long).2

theorem isLong_of_natAbs {n : Int} (small : n.natAbs < 2 ^ 63) : IsLong n := by
  rw [isLong_iff]
  omega

theorem IsLong.natAbs_le {n : Int} (long : IsLong n) : n.natAbs ≤ 2 ^ 63 := by
  rw [isLong_iff] at long
  omega

/-! ## Powers -/

/-- A power of a number that is not zero fits where a higher one does. -/
theorem IsLong.pow {x : Int} {i j : Nat} (long : IsLong (x ^ j)) (nonzero : x ≠ 0) (le : i ≤ j) :
    IsLong (x ^ i) := by
  rcases Nat.lt_or_eq_of_le le with lt | rfl
  · refine isLong_of_natAbs ?_
    have top := long.natAbs_le
    rw [Int.natAbs_pow] at top ⊢
    rcases Nat.lt_or_ge 1 x.natAbs with large | small
    · exact Nat.lt_of_lt_of_le (Nat.pow_lt_pow_right large lt) top
    -- One and minus one stay as small as they are.
    · have one : x.natAbs = 1 := by omega
      rw [one, Nat.one_pow]
      decide
  · exact long

/-- Only a number beyond one and minus one has a power that does not fit. -/
theorem natAbs_of_not_isLong_pow {x : Int} {j : Nat} (long : ¬IsLong (x ^ j)) (nonzero : x ≠ 0) :
    2 ≤ x.natAbs := by
  refine Nat.lt_of_not_le fun small => long (isLong_of_natAbs ?_)
  have one : x.natAbs = 1 := by omega
  rw [Int.natAbs_pow, one, Nat.one_pow]
  decide

/-! ## Division after wrapping -/

/-- A product that fits is divided by one of its factors. -/
theorem ofInt_div {y d : Int} (long : IsLong (y * d)) (long' : IsLong d) (nonzero : d ≠ 0) :
    Int64.ofInt (y * d) / Int64.ofInt d = Int64.ofInt y := by
  rw [← Int64.ofInt_tdiv long.1 long.2 long'.1 long'.2, Int.mul_tdiv_cancel y nonzero]

/-- A product that does not fit is off by a multiple of `2 ^ 64` when it is divided, which is more than any
remainder. -/
theorem wrapped_tdiv_ne {y d : Int} (large : ¬IsLong (y * d)) (long : IsLong d) (nonzero : d ≠ 0) :
    (Int64.ofInt (y * d)).toInt.tdiv d ≠ y := by
  intro same
  have remainder := Int.tmod_add_mul_tdiv (Int64.ofInt (y * d)).toInt d
  have small : ((Int64.ofInt (y * d)).toInt.tmod d).natAbs < d.natAbs := by
    rw [Int.natAbs_tmod]
    exact Nat.mod_lt _ (Int.natAbs_pos.mpr nonzero)
  have bound := long.natAbs_le
  have wrapped := Int.bmod_add_bdiv (y * d) (2 ^ 64)
  rw [same, Int.mul_comm d y] at remainder
  have lift : (Int64.ofInt (y * d)).toInt = (y * d).bmod (2 ^ 64) := Int64.toInt_ofInt
  -- The product is its wrapped form plus turns, and no turn fits into a remainder.
  have turns : (y * d).bdiv (2 ^ 64) = 0 := by omega
  apply large
  have whole : (Int64.ofInt (y * d)).toInt = y * d := by
    rw [turns] at wrapped
    omega
  rw [← whole]
  exact isLong_toInt _

theorem ofInt_ne_neg_one {d : Int} (long : IsLong d) (large : 2 ≤ d.natAbs) : Int64.ofInt d ≠ -1 := by
  intro same
  have value := congrArg Int64.toInt same
  rw [long.toInt_ofInt] at value
  have one : (-1 : Int64).toInt = -1 := rfl
  omega

/-- The quotient of a product that does not fit is wrong. -/
theorem ofInt_div_ne {y d : Int} (large : ¬IsLong (y * d)) (long : IsLong y) (long' : IsLong d)
    (beyond : 2 ≤ d.natAbs) : Int64.ofInt (y * d) / Int64.ofInt d ≠ Int64.ofInt y := by
  intro same
  have value := congrArg Int64.toInt same
  rw [Int64.toInt_div_of_ne_right _ _ (ofInt_ne_neg_one long' beyond), long.toInt_ofInt,
    long'.toInt_ofInt] at value
  exact wrapped_tdiv_ne large long' (by omega) value

theorem tdiv_tdiv (a b c : Int) : (a.tdiv b).tdiv c = a.tdiv (b * c) := by
  have naturals (a b c : Nat) : ((a : Int).tdiv b).tdiv c = (a : Int).tdiv (b * c) := by
    rw [← Int.ofNat_tdiv, ← Int.ofNat_tdiv, ← Int.natCast_mul, ← Int.ofNat_tdiv,
      Nat.div_div_eq_div_mul]
  obtain ⟨a, rfl | rfl⟩ := a.eq_nat_or_neg <;> obtain ⟨b, rfl | rfl⟩ := b.eq_nat_or_neg <;>
    obtain ⟨c, rfl | rfl⟩ := c.eq_nat_or_neg <;>
    simp only [Int.neg_tdiv, Int.tdiv_neg, Int.neg_mul, Int.mul_neg, Int.neg_neg, naturals]

/-- Nor is it right when a factor is taken out twice. -/
theorem ofInt_div_div_ne {y d : Int} (large : ¬IsLong (y * d ^ 2)) (long : IsLong y)
    (long' : IsLong (d ^ 2)) (beyond : 2 ≤ d.natAbs) :
    Int64.ofInt (y * d ^ 2) / Int64.ofInt d / Int64.ofInt d ≠ Int64.ofInt y := by
  intro same
  have nonzero : d ≠ 0 := by omega
  have single : IsLong d := by
    rw [← pow_one d]
    exact long'.pow nonzero (by decide)
  have value := congrArg Int64.toInt same
  rw [Int64.toInt_div_of_ne_right _ _ (ofInt_ne_neg_one single beyond),
    Int64.toInt_div_of_ne_right _ _ (ofInt_ne_neg_one single beyond), long.toInt_ofInt,
    single.toInt_ofInt, tdiv_tdiv, ← pow_two] at value
  exact wrapped_tdiv_ne large long' (pow_ne_zero 2 nonzero) value

/-! ## Division of powers -/

section Quotients

variable {x : Int} {n m : Nat} (nonzero : x ≠ 0) (long : IsLong (x ^ n))

include nonzero long

/-- A power divided out of a higher one leaves the rest of the exponent just if the higher one fits. -/
theorem ofInt_pow_div_iff (le : m ≤ n) (positive : m ≠ 0) :
    Int64.ofInt (x ^ (n + m)) / Int64.ofInt (x ^ m) = Int64.ofInt (x ^ n) ↔ IsLong (x ^ (n + m)) := by
  have long' : IsLong (x ^ m) := long.pow nonzero le
  constructor
  · intro same
    by_contra large
    have beyond : 2 ≤ (x ^ m).natAbs := by
      rw [Int.natAbs_pow]
      exact Nat.le_trans (natAbs_of_not_isLong_pow large nonzero) (Nat.le_self_pow positive _)
    rw [pow_add] at same large
    exact ofInt_div_ne large long long' beyond same
  · intro fits
    rw [pow_add] at fits ⊢
    exact ofInt_div fits long' (pow_ne_zero m nonzero)

/-- So does the base divided out twice. -/
theorem ofInt_pow_div_div_iff (le : 2 ≤ n) :
    Int64.ofInt (x ^ (n + 2)) / Int64.ofInt x / Int64.ofInt x = Int64.ofInt (x ^ n) ↔
      IsLong (x ^ (n + 2)) := by
  constructor
  · intro same
    by_contra large
    have beyond := natAbs_of_not_isLong_pow large nonzero
    rw [pow_add] at same large
    exact ofInt_div_div_ne large long (long.pow nonzero le) beyond same
  · intro fits
    have single : IsLong x := by
      rw [← pow_one x]
      exact long.pow nonzero (by omega)
    have fits' : IsLong (x ^ (n + 1)) := fits.pow nonzero (Nat.le_succ _)
    rw [pow_succ] at fits fits' ⊢
    rw [ofInt_div fits single nonzero, pow_succ, ofInt_div fits' single nonzero]

end Quotients

end StatScript
