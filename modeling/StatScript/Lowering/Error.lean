import StatScript.Operand

/-!
# Why an operation cannot be lowered

Types that do not go together are told apart from values that the operation does not take. Every
cause carries the operands concerned, and the wording is in one place.
-/

namespace StatScript

/-- Types that do not go together. -/
inductive TypeError where
  | incompatible (operation : String) (left right : Operand)
  | notNumeric (operation : String) (operand : Operand)
  | redeclared (existing given : Slot)
deriving DecidableEq, Repr

/-- Values that an operation does not take. -/
inductive InputError where
  | notFinite (operand : Operand)
  | notAssignable (operand : Operand)
  | negativeExponent (exponent : Int) (base : Operand)
  | exponentTooLarge (exponent limit : Int)
  | scaleTooLarge (scale : Int64)
  | twoLiterals (left right : Operand)
deriving DecidableEq, Repr

/-- Why an operation cannot be lowered. -/
inductive LoweringError where
  | type (error : TypeError)
  | input (error : InputError)
deriving DecidableEq, Repr

/-- An operand with its type, as messages show it. -/
def Operand.typed (operand : Operand) : String :=
  operand.display ++ ": " ++ operand.type.name

namespace TypeError

/-- The operation that was refused. -/
def operation : TypeError → String
  | incompatible operation _ _ | notNumeric operation _ => operation
  | redeclared _ _ => "declare"

/-- The left side of the refused combination. -/
def left : TypeError → String
  | incompatible _ left _ => left.typed
  | notNumeric _ operand => operand.typed
  | redeclared existing _ => (Operand.slot existing).typed

/-- The right side of the refused combination. -/
def right : TypeError → String
  | incompatible _ _ right => right.typed
  | notNumeric _ _ => "number"
  | redeclared _ given => (Operand.slot given).typed

/-- The message of a type error. -/
def message (error : TypeError) : String :=
  "`" ++ error.operation ++ "` cannot combine `" ++ error.left ++ "` with `" ++ error.right ++ "`"

end TypeError

/-- The message of an input error. -/
def InputError.message : InputError → String
  | notFinite operand => "non-finite literal `" ++ operand.right ++ "`"
  | notAssignable operand => "`" ++ operand.right ++ "` cannot be assigned to"
  | negativeExponent exponent base =>
      "negative exponent " ++ exponent.repr ++ " for `" ++ base.display ++ "`"
  | exponentTooLarge exponent limit => "exponent " ++ exponent.repr ++ " exceeds " ++ limit.repr
  | scaleTooLarge scale => "sign scale " ++ scale.toInt.repr ++ " overflows when doubled"
  | twoLiterals left right =>
      "comparison between two literals `" ++ left.display ++ "` and `" ++ right.display ++ "`"

/-- The message of a lowering error. -/
def LoweringError.message : LoweringError → String
  | type error => error.message
  | input error => "invalid input: " ++ error.message

end StatScript
