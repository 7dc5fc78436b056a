import StatScript.Lowering.Check
import StatScript.Lowering.Code

/-!
# Lowering arithmetic

The four basic operations copy the left operand into a fresh temp and combine the right one into
it. Modulo, sign and absolute value are built from them without a conditional. The target divides
toward zero, and its numbers wrap at 64 bits.
-/

namespace StatScript

namespace Emit

/-! ## Basic operations -/

/-- A literal takes the type of the operand beside it; two operands of the same sort join theirs. -/
def resultType (left right : Operand) : ValueType :=
  match left.isLiteral, right.isLiteral with
  | true, false => right.type
  | false, true => left.type
  | _, _ => left.type.join right.type

/-- The result kept in a temp, with the operations behind its operands and then its own. -/
def result (temp : Temp) (operation : Operation) (operands : List Operand) : Operand :=
  .computed temp (operands.flatMap Operand.chain ++ [operation])

/-- `temp = left; temp op= right`. -/
def basic (op : BasicOp) (left right : Operand) : Emit Operand := do
  let temp ← define left (resultType left right)
  combine temp op right
  return result temp (.basic op) [left, right]

/-- The same temp under another operation: its steps are not shown one by one. -/
def relabel (operand : Operand) (operation : Operation) (operands : List Operand) : Operand :=
  match operand with
  | .computed temp _ => result temp operation operands
  | other => other

/-! ## Modulo -/

/-- `left - right * (left / right)`, which has the sign of `left`. -/
def remainder (left right : Operand) : Emit Operand := do
  let quotient ← basic .div left right
  let product ← basic .mul quotient right
  basic .sub left product

/-- The remainder moved up by the divisor and taken once more, so that it has the sign of the
divisor. -/
def modulo (left right : Operand) : Emit Operand := do
  let raw ← remainder left right
  let moved ← basic .add raw right
  let rest ← remainder moved right
  return relabel rest .mod [left, right]

/-! ## Sign and absolute value -/

/-- `2 ^ 62`. A value of smaller magnitude moved up by it is positive, and divides by it to one or to
zero. -/
def pivot : Int64 := 4611686018427387904

/-- Halves a temp that may hold a value beyond the pivot. -/
def halve (huge : Bool) (temp : Temp) : Emit Unit :=
  if huge then combine temp .div (.ofLong 2) else pure ()

/-- `scale` or `-scale`, by the sign of the value. Within reach of the pivot, adding it and dividing
by it leaves one for values that are not negative and zero for others. -/
def sign (value : Operand) (scale : Int64) (huge : Bool) : Emit Operand := do
  let temp ← define value .long
  halve huge temp
  combine temp .add (.ofLong pivot)
  combine temp .div (.ofLong pivot)
  combine temp .mul (.ofLong (scale * 2))
  combine temp .sub (.ofLong scale)
  return result temp .sign [value]

/-- The sign that was lowered before, or else the sign of the value. -/
def knownSign (value : Operand) : Option Operand → Emit Operand
  | some known => pure known
  | none => sign value 1 false

/-- The value times its sign. -/
def abs (value : Operand) (known : Option Operand) : Emit Operand := do
  let factor ← knownSign value known
  let product ← basic .mul value factor
  return relabel product .abs [value]

end Emit

/-! ## The operations with their checks

Lowering an operation gives the cause why it is refused, or code to write. -/

namespace Lowering

open Check

/-- A basic operation. -/
def basic (op : BasicOp) (left right : Operand) : Except LoweringError (Emit Operand) := do
  compatible op.name left right
  finite left
  finite right
  return Emit.basic op left right

/-- A basic operation asked of its right operand: `other op this`. -/
def reflected (op : BasicOp) (this other : Operand) : Except LoweringError (Emit Operand) :=
  if op.isCommutative then basic op this other else basic op other this

/-- The remainder with the sign of the divisor. -/
def modulo (left right : Operand) : Except LoweringError (Emit Operand) := do
  compatible Operation.mod.name left right
  numeric Operation.mod.name left
  numeric Operation.mod.name right
  finite left
  finite right
  return Emit.modulo left right

/-- Plus or minus `scale`, by the sign of the value; zero counts as positive. -/
def sign (value : Operand) (scale : Int64) (huge : Bool) : Except LoweringError (Emit Operand) := do
  numeric Operation.sign.name value
  finite value
  doubles scale
  return Emit.sign value scale huge

/-- The absolute value, by a sign that may have been lowered before. -/
def abs (value : Operand) (known : Option Operand) : Except LoweringError (Emit Operand) := do
  numeric Operation.abs.name value
  finite value
  known.forM finite
  return Emit.abs value known

end Lowering

end StatScript
