/-!
# Value types

The declared type of a slot, a literal or a placeholder. `any` is the type of what was never
declared: it goes with every type and gives way to every other one.
-/

namespace StatScript

/-- What a slot may hold. -/
inductive ValueType where
  | any
  | long
  | double
  | string
deriving DecidableEq, Repr

namespace ValueType

/-- The name of a type, as messages show it. -/
def name : ValueType → String
  | any => "any"
  | long => "long"
  | double => "double"
  | string => "string"

/-- The types of numbers. -/
def isNumeric : ValueType → Bool
  | long | double => true
  | any | string => false

/-- Whether a value of type `right` may be combined into one of type `left`. A string takes
anything, and two different number types meet only if a literal is involved. -/
def accepts (left right : ValueType) (literal : Bool) : Bool :=
  match left, right with
  | any, _ | _, any | string, _ => true
  | _, _ => left = right || (literal && left.isNumeric && right.isNumeric)

/-- The type of a combination: a double wins over the other types, and otherwise the left one
stands. -/
def join : ValueType → ValueType → ValueType
  | any, right => right
  | left, any => left
  | double, _ | _, double => double
  | left, _ => left

end ValueType

end StatScript
