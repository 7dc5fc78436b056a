import StatScript.Double.Printer
import StatScript.Slot.Basic

/-!
# Operands

What an operation reads: a slot, a literal, the temp that holds an earlier result, or a placeholder
that the target fills in. A result remembers the operations that led to it, in the order in which
they were lowered.
-/

namespace StatScript

/-! ## Literals -/

/-- A value written in the script. -/
inductive Literal where
  | long (value : Int64)
  | double (value : Double)
  | text (value : String)
deriving DecidableEq, Repr

namespace Literal

/-- The type of a literal. -/
def type : Literal → ValueType
  | long _ => .long
  | double _ => .double
  | text _ => .string

/-- The text of a literal on the right side of a change. Quotes inside a text are not escaped. -/
def right : Literal → String
  | long value => value.toInt.repr
  | double value => value.text
  | text value => "\"" ++ value ++ "\""

/-- Only an infinite or undefined double is not finite. -/
def isFinite : Literal → Bool
  | double value => value.isFinite
  | long _ | text _ => true

end Literal

/-! ## Operations -/

/-- The four operations that the target performs in one change. -/
inductive BasicOp where
  | add
  | sub
  | mul
  | div
deriving DecidableEq, Repr

namespace BasicOp

/-- The name of an operation in messages. -/
def name : BasicOp → String
  | add => "add"
  | sub => "sub"
  | mul => "mul"
  | div => "div"

/-- Whether the two sides may be exchanged. -/
def isCommutative : BasicOp → Bool
  | add | mul => true
  | sub | div => false

end BasicOp

/-- An operation that leaves its result in a temp. -/
inductive Operation where
  | basic (op : BasicOp)
  | mod
  | pow (exponent : Nat)
  | sign
  | abs
deriving DecidableEq, Repr

/-- The name of an operation in messages. -/
def Operation.name : Operation → String
  | basic op => op.name
  | mod => "mod"
  | pow _ => "pow"
  | sign => "sign"
  | abs => "abs"

/-! ## Operands -/

/-- A value that an operation reads. -/
inductive Operand where
  | slot (slot : Slot)
  | literal (literal : Literal)
  | computed (temp : Temp) (chain : List Operation)
  | placeholder (text : String) (type : ValueType)
deriving DecidableEq, Repr

namespace Operand

/-- A whole number as an operand. -/
def ofLong (value : Int64) : Operand := .literal (.long value)

/-- Whether the operand is written in the script as a value. -/
def isLiteral : Operand → Bool
  | literal _ => true
  | _ => false

/-- The whole number of a literal. -/
def long? : Operand → Option Int64
  | literal (.long value) => some value
  | _ => none

/-- The slot that holds the operand. -/
def slot? : Operand → Option Slot
  | slot cell => some cell
  | computed temp _ => some temp.slot
  | literal _ | placeholder _ _ => none

/-- The declared type of the operand. -/
def type : Operand → ValueType
  | slot cell => cell.type
  | literal value => value.type
  | computed temp _ => temp.type
  | placeholder _ type => type

/-- The operations that led to the operand. -/
def chain : Operand → List Operation
  | computed _ chain => chain
  | _ => []

/-- The text of the operand on the right side of a change. -/
def right : Operand → String
  | slot cell => cell.right
  | literal value => value.right
  | computed temp _ => temp.slot.right
  | placeholder text _ => text

/-- The text of the operand inside a comment: a text literal stands without its quotes. -/
def inComment : Operand → String
  | literal (.text value) => value
  | operand => operand.right

/-- The form shown in messages. -/
def display : Operand → String
  | slot cell => cell.display
  | literal value => value.right
  | computed temp _ => temp.slot.display
  | placeholder text _ => text

/-- Only a literal can fail to be finite. -/
def isFinite : Operand → Bool
  | literal value => value.isFinite
  | _ => true

end Operand

end StatScript
