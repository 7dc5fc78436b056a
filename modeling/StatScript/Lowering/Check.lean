import StatScript.Lowering.Error

/-!
# Checks before lowering

An operation is lowered only if the types of its operands go together, where it computes they are
not strings, and no literal is infinite or undefined.
-/

namespace StatScript.Check

/-- The left operand accepts the type of the right one. -/
def compatible (operation : String) (left right : Operand) : Except LoweringError Unit :=
  if left.type.accepts right.type (left.isLiteral || right.isLiteral) then .ok ()
  else .error (.type (.incompatible operation left right))

/-- The operand is not declared to be a string. -/
def numeric (operation : String) (operand : Operand) : Except LoweringError Unit :=
  if operand.type = .string then .error (.type (.notNumeric operation operand)) else .ok ()

/-- The operand is not an infinite or undefined literal. -/
def finite (operand : Operand) : Except LoweringError Unit :=
  if operand.isFinite then .ok () else .error (.input (.notFinite operand))

/-- Twice the scale is a 64-bit number. -/
def doubles (scale : Int64) : Except LoweringError Unit :=
  if Int64.minValue.toInt ≤ 2 * scale.toInt ∧ 2 * scale.toInt ≤ Int64.maxValue.toInt then .ok ()
  else .error (.input (.scaleTooLarge scale))

end StatScript.Check
