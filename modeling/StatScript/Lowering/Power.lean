import StatScript.Lowering.Arithmetic

/-!
# Lowering powers

A power is reached by squaring. Either squaring stops at the last power of two up to the exponent
and the rest is multiplied in, or it goes one step beyond and the excess is divided out. The rest
and the excess are powers again. Left to choose, the lowering writes both and keeps the one with
fewer changes; the temps of the other stay handed out.
-/

namespace StatScript

/-- How the exponent is taken apart. -/
inductive PowerPlan where
  | shorter
  | multiply
  | divide
deriving DecidableEq, Repr

namespace Emit

/-- Squares a temp a number of times. -/
def square (temp : Temp) : Nat → Emit Unit
  | 0 => pure ()
  | times + 1 => do
      combine temp .mul (.slot temp.slot)
      square temp times

/-- Whether a positive number is a power of two. -/
def isPowerOfTwo (n : Nat) : Bool :=
  n = Nat.pow 2 n.log2

/-- Of two ways to write the same result, the one with strictly fewer changes, else the first. The
second is written behind the temps of the first, and not at all if the first is a single change. -/
def shorter (first second : Emit Operand) : Emit Operand := fun temps =>
  let code := first temps
  if code.changes.length ≤ 1 then code
  else
    let other := second code.temps
    if other.changes.length < code.changes.length then other
    else { code with temps := other.temps }

/-- What is left of the exponent below its last power of two. -/
def restOf (n : Nat) : Nat := n - Nat.pow 2 n.log2

/-- What the next power of two has more than the exponent. -/
def excessOf (n : Nat) : Nat := Nat.pow 2 (n.log2 + 1) - n

theorem restOf_lt {n : Nat} (h : restOf n ≠ 0) : restOf n < n := by
  have := Nat.two_pow_pos n.log2
  simp only [restOf, Nat.pow_eq] at *
  omega

theorem excessOf_le {n : Nat} (h : excessOf n ≠ 2) : excessOf n ≤ n := by
  by_cases hn : n = 0
  · subst hn
    exact absurd rfl h
  · have := Nat.log2_self_le hn
    simp only [excessOf, Nat.pow_eq, Nat.pow_succ]
    omega

theorem excessOf_lt {n : Nat} (h : excessOf n ≠ 2) (hp : ¬isPowerOfTwo (excessOf n)) :
    excessOf n < n := by
  have hle := excessOf_le h
  refine Nat.lt_of_le_of_ne hle fun heq => hp ?_
  have hn : n ≠ 0 := by
    rintro rfl
    exact h rfl
  have := Nat.log2_self_le hn
  have hself : n = Nat.pow 2 n.log2 := by
    simp only [excessOf, Nat.pow_eq, Nat.pow_succ] at *
    omega
  simpa [isPowerOfTwo, heq] using hself

mutual

/-- Multiplies what is left of the exponent `n` into a temp. -/
def multiplyRest (base : Operand) (temp : Temp) (n : Nat) : Emit Unit :=
  if restOf n = 1 then combine temp .mul base
  else if _h : restOf n ≠ 0 then do
    let part ← power base (restOf n)
    combine temp .mul part
  else pure ()
termination_by (n, 0)
decreasing_by
  exact Prod.Lex.left _ _ (restOf_lt _h)

/-- Squares up to the last power of two, then multiplies the rest in. -/
def powerByMultiply (base : Operand) (n : Nat) : Emit Operand := do
  let temp ← define base base.type
  square temp n.log2
  multiplyRest base temp n
  return result temp (.pow n) [base]
termination_by (n, 1)

/-- Divides what the next power of two has more than the exponent `n` out of a temp. An excess of
two is divided out twice, and one that is a power of two is reached by squaring alone. -/
def divideExcess (base : Operand) (temp : Temp) (n : Nat) : Emit Unit :=
  if excessOf n = 1 then combine temp .div base
  else if _h : excessOf n = 2 then do
    combine temp .div base
    combine temp .div base
  else if _hp : isPowerOfTwo (excessOf n) then do
    let divisor ← powerByMultiply base (excessOf n)
    combine temp .div divisor
  else do
    let divisor ← power base (excessOf n)
    combine temp .div divisor
termination_by (n, 2)
decreasing_by
  · rcases Nat.lt_or_eq_of_le (excessOf_le _h) with h | h
    · exact Prod.Lex.left _ _ h
    · rw [h]
      exact Prod.Lex.right _ (by decide)
  · exact Prod.Lex.left _ _ (excessOf_lt _h _hp)

/-- Squares once beyond the exponent, then divides the excess out. -/
def powerByDivide (base : Operand) (n : Nat) : Emit Operand := do
  let temp ← define base base.type
  square temp (n.log2 + 1)
  divideExcess base temp n
  return result temp (.pow n) [base]
termination_by (n, 3)

/-- The shorter of the two ways. -/
def power (base : Operand) (n : Nat) : Emit Operand :=
  shorter (powerByMultiply base n) (powerByDivide base n)
termination_by (n, 4)

end

/-- A power by a given plan. The power zero is the literal one and takes no code. -/
def powerBy (plan : PowerPlan) (base : Operand) (n : Nat) : Emit Operand :=
  if n = 0 then pure (.ofLong 1)
  else
    match plan with
    | .shorter => power base n
    | .multiply => powerByMultiply base n
    | .divide => powerByDivide base n

end Emit

namespace Lowering

/-- The largest exponent that is lowered. -/
def maxExponent : Int := 1024

/-- The power of a base to a constant exponent. -/
def power (plan : PowerPlan) (base : Operand) (exponent : Int) :
    Except LoweringError (Emit Operand) :=
  if exponent < 0 then .error (.input (.negativeExponent exponent base))
  else if maxExponent < exponent then .error (.input (.exponentTooLarge exponent maxExponent))
  else do
    Check.numeric (Operation.pow exponent.toNat).name base
    return Emit.powerBy plan base exponent.toNat

end Lowering

end StatScript
