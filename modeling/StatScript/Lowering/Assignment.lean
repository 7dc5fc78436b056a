import StatScript.Comparison
import StatScript.Lowering.Arithmetic

/-!
# Lowering assignments and comparisons

An assignment changes its target directly. In-place modulo computes in temps and corrects the
result for divisors that may be negative. A comparison writes no code: it is the text of a
condition, with its literal, if any, on the right.
-/

namespace StatScript

/-- The operations of an assignment that combines. -/
inductive AssignOp where
  | basic (op : BasicOp)
  | mod
deriving DecidableEq, Repr

namespace Emit

/-- The divisor is written in the script as a positive number. -/
def isPositiveLiteral (operand : Operand) : Bool :=
  match operand.long? with
  | some value => 0 < value
  | none => false

/-- Adds the absolute value of a negative divisor to a negative target:
`target -= divisor * ((1 - sign(target)) / 2)`. -/
def correctSign (target : Slot) (divisor : Operand) : Emit Unit := do
  let sign ← sign (.slot target) 1 false
  let twice ← basic .sub (.ofLong 1) sign
  let negative ← basic .div twice (.ofLong 2)
  let correction ← basic .mul negative divisor
  change target (.combine .sub) correction

/-- `target = target mod divisor`, never negative. A positive literal needs no correction. -/
def moduloInPlace (target : Slot) (divisor : Operand) : Emit Unit := do
  let rest ← modulo (.slot target) divisor
  change target .set rest
  if isPositiveLiteral divisor then pure () else correctSign target divisor

end Emit

/-- The left side of a change of this operand; only slots and temps have one. -/
def Operand.left (operand : Operand) : Except LoweringError String :=
  match operand.slot? with
  | some cell => .ok cell.left
  | none => .error (.input (.notAssignable operand))

/-- The text that a condition is about; a literal is never its subject. -/
def Operand.subject? : Operand → Option String
  | .slot cell => some cell.left
  | .computed temp _ => some temp.slot.left
  | .placeholder text _ => some ("placeholder " ++ text)
  | .literal _ => none

namespace Lowering

open Check

/-- `target = value`. -/
def assign (target : Slot) (value : Operand) : Except LoweringError (Emit Unit) := do
  compatible "assign" (.slot target) value
  finite value
  return Emit.change target .set value

/-- `target op= value`. -/
def assignOp (target : Slot) (op : AssignOp) (value : Operand) :
    Except LoweringError (Emit Unit) := do
  compatible "assign" (.slot target) value
  finite value
  match op with
  | .basic op => return Emit.change target (.combine op) value
  | .mod => do
      numeric Operation.mod.name (.slot target)
      numeric Operation.mod.name value
      return Emit.moduloInPlace target value

/-- The condition that compares a subject with a value. -/
def condition (subject : String) (comparison : Comparison) (value : Operand) : Condition :=
  { text := subject ++ " " ++ comparison.symbol ++ " " ++ value.right }

/-- The condition that two operands compare in a given way. If the left one is a literal the sides
are exchanged; two literals are refused. -/
def compare (left : Operand) (comparison : Comparison) (right : Operand) :
    Except LoweringError Condition := do
  compatible comparison.symbol left right
  finite left
  finite right
  match left.subject?, right.subject? with
  | some subject, _ => return condition subject comparison right
  | none, some subject => return condition subject comparison.flipped left
  | none, none => throw (.input (.twoLiterals left right))

end Lowering

end StatScript
