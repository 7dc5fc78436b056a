import StatScript.Line

/-!
# Code

Lowering turns an operation into changes: each sets a slot or combines a value into it, and each
result that is not a plain operand is kept in a temp of its own. Writing code cannot fail, because
every check is made before. Code depends on its surroundings only through the number of temps
handed out before it, so two pieces of code can be written and compared before one is kept.
-/

namespace StatScript

/-- What a change does to its target. -/
inductive Mode where
  | set
  | combine (op : BasicOp)
deriving DecidableEq, Repr

/-- The word for a mode in a change. -/
def Mode.word : Mode → String
  | set => "set"
  | combine .add => "inc"
  | combine .sub => "dec"
  | combine .mul => "multiply"
  | combine .div => "divide"

/-- One change of a slot. `defining` marks the first change of a temp. -/
structure Change where
  target : Slot
  mode : Mode
  value : Operand
  defining : Bool := false
deriving DecidableEq, Repr

namespace Change

/-- A change in words: the target, the mode and the value. -/
def text (change : Change) : String :=
  change.target.left ++ " " ++ change.mode.word ++ " " ++ change.value.right

/-- The line of a change. The line that defines a temp asks the target to unset it by itself. -/
def line (change : Change) : Line :=
  { text := change.text
    tag := .change change.target.key.changeKind
    autoUnset := change.defining }

end Change

/-- Changes with the result that they lead to, and the number of temps handed out at their end. -/
structure Code (α : Type) where
  changes : List Change
  result : α
  temps : Nat
deriving DecidableEq

/-- A piece of code still to be written: it takes the number of temps handed out before it. -/
def Emit (α : Type) : Type :=
  Nat → Code α

namespace Emit

/-- One piece of code behind another, which it may read the result of. -/
instance : Monad Emit where
  pure result := fun temps => { changes := [], result, temps }
  bind first next := fun temps =>
    let code := first temps
    let more := next code.result code.temps
    { more with changes := code.changes ++ more.changes }

/-- A single change. -/
def change (target : Slot) (mode : Mode) (value : Operand) : Emit Unit := fun temps =>
  { changes := [{ target, mode, value }], result := (), temps }

/-- Hands out the next temp and sets it to a value. -/
def define (value : Operand) (type : ValueType) : Emit Temp := fun temps =>
  let temp : Temp := { number := temps + 1, type }
  { changes := [{ target := temp.slot, mode := .set, value, defining := true }]
    result := temp
    temps := temps + 1 }

/-- Combines a value into a temp. -/
def combine (temp : Temp) (op : BasicOp) (value : Operand) : Emit Unit :=
  change temp.slot (.combine op) value

end Emit

end StatScript
