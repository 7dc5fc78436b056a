import StatScript.Proofs.Lowering.Power

/-!
# How an exponent is taken apart

The code of a power is put together from the code of its parts. Here this is a derivation with one rule for
each way to do so, and each rule says how the exponents go together. Statements about the code of powers are
proved by induction over the derivation, without looking at logarithms, rests and excesses again.

Main statement: `powerCode_powerBy`, the code of every power but the power zero has a derivation, whichever
way it is written.
-/

namespace StatScript

namespace Emit

/-- Sets a temp to the base and squares it a number of times. -/
def squared (base : Operand) (n squarings : Nat) : Emit Operand := fun temps =>
  let temp : Temp := ⟨temps + 1, base.type⟩
  ⟨raising base temp squarings, result temp (.pow n) [base], temps + 1⟩

/-- Squares a temp and then combines a part into it. -/
def joined (base : Operand) (n squarings : Nat) (op : BasicOp) (part : Emit Operand) : Emit Operand :=
  fun temps =>
    let temp : Temp := ⟨temps + 1, base.type⟩
    ⟨raising base temp squarings ++ stage temp op (part (temps + 1)), result temp (.pow n) [base],
      (part (temps + 1)).temps⟩

/-- Squares a temp and then divides it by the base, twice. -/
def dividedTwice (base : Operand) (n squarings : Nat) : Emit Operand := fun temps =>
  let temp : Temp := ⟨temps + 1, base.type⟩
  ⟨raising base temp squarings ++
      (stage temp .div ⟨[], base, temps + 1⟩ ++ stage temp .div ⟨[], base, temps + 1⟩),
    result temp (.pow n) [base], temps + 1⟩

end Emit

/-- `PowerCode n emit`: from every base, `emit` writes code for the power `n`.

* `base`: the base is its own first power.
* `square`: a power of two is reached by squaring alone.
* `multiply`: a part is multiplied into a power of two.
* `divide`, `divideTwice`: a part, or the square of the base, is divided out of a power of two.
* `shorter`: of two ways the shorter one is kept. -/
inductive PowerCode : Nat → (Operand → Emit Operand) → Prop
  | base : PowerCode 1 pure
  | square {n k : Nat} : n = 2 ^ k → PowerCode n fun base => Emit.squared base n k
  | multiply {n m k : Nat} {part : Operand → Emit Operand} :
      n = 2 ^ k + m → PowerCode m part →
      PowerCode n fun base => Emit.joined base n k .mul (part base)
  | divide {n m k : Nat} {part : Operand → Emit Operand} :
      n + m = 2 ^ k → PowerCode m part →
      PowerCode n fun base => Emit.joined base n k .div (part base)
  | divideTwice {n k : Nat} : n + 2 = 2 ^ k → PowerCode n fun base => Emit.dividedTwice base n k
  | shorter {n : Nat} {first second : Operand → Emit Operand} :
      PowerCode n first → PowerCode n second →
      PowerCode n fun base => Emit.shorter (first base) (second base)

/-- What is known of the code at one exponent: multiplying and the shorter way both have derivations. -/
structure PowerCodes (n : Nat) : Prop where
  multiply : PowerCode n fun base => Emit.powerByMultiply base n
  shorter : PowerCode n fun base => Emit.power base n

section Exponents

variable {n : Nat} (ih : ∀ m < n, m ≠ 0 → PowerCodes m)
include ih

theorem powerCode_restPart (rest : Emit.restOf n ≠ 0) :
    PowerCode (Emit.restOf n) fun base => Emit.restPart base n := by
  unfold Emit.restPart
  split
  · next one =>
      rw [one]
      exact .base
  · exact (ih _ (Emit.restOf_lt rest) rest).shorter

theorem powerCode_powerByMultiply (positive : n ≠ 0) :
    PowerCode n fun base => Emit.powerByMultiply base n := by
  obtain ⟨exponent, -⟩ := Emit.restOf_spec positive
  by_cases rest : Emit.restOf n = 0
  · have code : (fun base => Emit.powerByMultiply base n) = fun base => Emit.squared base n n.log2 :=
      funext fun base => funext (Emit.powerByMultiply_alone rest base)
    rw [code]
    rw [rest] at exponent
    exact .square exponent
  · have code : (fun base => Emit.powerByMultiply base n) =
        fun base => Emit.joined base n n.log2 .mul (Emit.restPart base n) :=
      funext fun base => funext (Emit.powerByMultiply_rest rest base)
    rw [code]
    exact .multiply exponent (powerCode_restPart ih rest)

/-- An excess that is a power of two may be as large as the exponent itself, but then it is not divided. -/
theorem powerCode_excessPart (positive : n ≠ 0) (excess : Emit.excessOf n ≠ 2) :
    PowerCode (Emit.excessOf n) fun base => Emit.excessPart base n := by
  have positive' := (Emit.excessOf_spec positive).2.1
  unfold Emit.excessPart
  split
  · next one =>
      rw [one]
      exact .base
  split
  · refine powerCode_powerByMultiply (fun m less => ih m ?_) positive'
    exact Nat.lt_of_lt_of_le less (Emit.excessOf_le excess)
  · next other => exact (ih _ (Emit.excessOf_lt excess other) positive').shorter

theorem powerCode_powerByDivide (positive : n ≠ 0) :
    PowerCode n fun base => Emit.powerByDivide base n := by
  obtain ⟨exponent, -⟩ := Emit.excessOf_spec positive
  by_cases excess : Emit.excessOf n = 2
  · have code : (fun base => Emit.powerByDivide base n) =
        fun base => Emit.dividedTwice base n (n.log2 + 1) :=
      funext fun base => funext (Emit.powerByDivide_twice excess base)
    rw [code]
    rw [excess] at exponent
    exact .divideTwice exponent
  · have code : (fun base => Emit.powerByDivide base n) =
        fun base => Emit.joined base n (n.log2 + 1) .div (Emit.excessPart base n) :=
      funext fun base => funext (Emit.powerByDivide_excess excess base)
    rw [code]
    exact .divide exponent (powerCode_excessPart ih positive excess)

end Exponents

theorem powerCodes {n : Nat} (positive : n ≠ 0) : PowerCodes n := by
  induction n using Nat.strongRecOn with
  | ind n ih =>
      have multiply := powerCode_powerByMultiply ih positive
      have code : (fun base => Emit.power base n) =
          fun base => Emit.shorter (Emit.powerByMultiply base n) (Emit.powerByDivide base n) := by
        funext base
        rw [Emit.power]
      refine ⟨multiply, ?_⟩
      rw [code]
      exact .shorter multiply (powerCode_powerByDivide ih positive)

/-- The code of every power but the power zero has a derivation. -/
theorem powerCode_powerBy (plan : PowerPlan) {n : Nat} (positive : n ≠ 0) :
    PowerCode n fun base => Emit.powerBy plan base n := by
  simp only [Emit.powerBy, if_neg positive]
  cases plan with
  | shorter => exact (powerCodes positive).shorter
  | multiply => exact (powerCodes positive).multiply
  | divide => exact powerCode_powerByDivide (fun _ _ => powerCodes) positive

end StatScript
