import StatScript.Machine
import StatScript.Script

/-!
# Structured programs

What is written through a script: assignments of expressions and conditionals of one level. A program
has a value for every slot by itself, without lines and temps, and it is written into a script
statement by statement, expressions first.

Numbers are exact and brought back to 64 bits after each operation. The only thing that can go wrong
is a division by zero; then there is no value.
-/

namespace StatScript

/-! ## Expressions -/

/-- An expression over slots and whole numbers. -/
inductive Expr where
  | slot (cell : Slot)
  | long (value : Int64)
  | binary (op : BasicOp) (left right : Expr)
deriving DecidableEq, Repr

/-- The slots in an expression. -/
def Expr.slots : Expr → List Slot
  | slot cell => [cell]
  | long _ => []
  | binary _ left right => left.slots ++ right.slots

/-- The value of every slot. -/
def Values : Type :=
  SlotKey → Int64

/-- The values with another one for one slot. -/
def Values.set (values : Values) (key : SlotKey) (value : Int64) : Values :=
  fun other => if other = key then value else values other

/-- The values that the cells of a machine hold. -/
def Store.values (store : Store) : Values :=
  fun key => store.get key.left

/-- The result of an operation, if it has one. Division goes toward zero. -/
def BasicOp.value? (op : BasicOp) (left right : Int64) : Option Int64 :=
  match op with
  | .add => some (.ofInt (left.toInt + right.toInt))
  | .sub => some (.ofInt (left.toInt - right.toInt))
  | .mul => some (.ofInt (left.toInt * right.toInt))
  | .div => if right = 0 then none else some (.ofInt (left.toInt.tdiv right.toInt))

/-- Whether two numbers compare in a given way. -/
def Comparison.relates (comparison : Comparison) (left right : Int64) : Bool :=
  match comparison with
  | .equal => left.toInt = right.toInt
  | .notEqual => left.toInt ≠ right.toInt
  | .less => left.toInt < right.toInt
  | .lessEqual => left.toInt ≤ right.toInt
  | .greater => left.toInt > right.toInt
  | .greaterEqual => left.toInt ≥ right.toInt

/-- The value of an expression. -/
def Expr.eval (values : Values) : Expr → Option Int64
  | slot cell => some (values cell.key)
  | long value => some value
  | binary op left right => do
      let first ← left.eval values
      let second ← right.eval values
      op.value? first second

/-! ## Statements -/

/-- A change of a slot by the value of an expression. -/
inductive Statement where
  | assign (target : Slot) (value : Expr)
  | update (target : Slot) (op : BasicOp) (value : Expr)
deriving DecidableEq, Repr

/-- The slots in a statement. -/
def Statement.slots : Statement → List Slot
  | assign target value | update target _ value => target :: value.slots

/-- The values behind a statement. -/
def Statement.eval (values : Values) : Statement → Option Values
  | assign target value => do
      let result ← value.eval values
      return values.set target.key result
  | update target op value => do
      let operand ← value.eval values
      let result ← op.value? (values target.key) operand
      return values.set target.key result

/-- The values behind statements. -/
def evalStatements (values : Values) : List Statement → Option Values
  | [] => some values
  | statement :: rest => do
      let next ← statement.eval values
      evalStatements next rest

/-- A comparison of two expressions. -/
structure Premise where
  left : Expr
  comparison : Comparison
  right : Expr
deriving DecidableEq, Repr

/-- The slots in a premise. -/
def Premise.slots (premise : Premise) : List Slot :=
  premise.left.slots ++ premise.right.slots

/-- Whether a premise holds. -/
def Premise.eval (values : Values) (premise : Premise) : Option Bool := do
  let left ← premise.left.eval values
  let right ← premise.right.eval values
  return premise.comparison.relates left right

/-- Whether each of the premises holds. All of them are evaluated. -/
def evalPremises (values : Values) : List Premise → Option (List Bool)
  | [] => some []
  | premise :: rest => do
      let first ← premise.eval values
      let others ← evalPremises values rest
      return first :: others

/-- Whether a conditional is entered. Without premises it is. -/
def enters (all : Bool) (truths : List Bool) : Bool :=
  truths.isEmpty || if all then truths.all id else truths.any id

/-- A statement, or a conditional with a second body or without one. -/
inductive Sentence where
  | plain (statement : Statement)
  | conditional (all : Bool) (premises : List Premise) (body : List Statement)
      (alternative : Option (List Statement))
deriving DecidableEq, Repr

/-- The slots in a sentence. -/
def Sentence.slots : Sentence → List Slot
  | plain statement => statement.slots
  | conditional _ premises body alternative =>
      premises.flatMap Premise.slots ++ body.flatMap Statement.slots ++
        (alternative.getD []).flatMap Statement.slots

/-- The values behind a sentence. -/
def Sentence.eval (values : Values) : Sentence → Option Values
  | plain statement => statement.eval values
  | conditional all premises body alternative => do
      let truths ← evalPremises values premises
      if enters all truths then evalStatements values body
      else evalStatements values (alternative.getD [])

/-- The values behind a program. -/
def evalProgram (values : Values) : List Sentence → Option Values
  | [] => some values
  | sentence :: rest => do
      let next ← sentence.eval values
      evalProgram next rest

/-! ## Writing -/

/-- Lowers an operation, which must not be refused. -/
def Script.lowered {α : Type} (script : Script) (lowering : Except LoweringError (Emit α)) :
    Except ScriptError (α × Script) :=
  match script.lower lowering with
  | (.ok result, next) => .ok (result, next)
  | (.error error, _) => .error (.lowering error)

/-- Writes an expression, the left operand first. -/
def Expr.write : Expr → Script → Except ScriptError (Operand × Script)
  | slot cell, script => .ok (.slot cell, script)
  | long value, script => .ok (.ofLong value, script)
  | binary op left right, script => do
      let (first, script) ← left.write script
      let (second, script) ← right.write script
      script.lowered (Lowering.basic op first second)

/-- Writes a statement. -/
def Statement.write : Statement → Script → Except ScriptError Script
  | assign target value, script => do
      let (operand, script) ← value.write script
      let (_, script) ← script.lowered (Lowering.assign target operand)
      return script
  | update target op value, script => do
      let (operand, script) ← value.write script
      let (_, script) ← script.lowered (Lowering.assignOp target (.basic op) operand)
      return script

/-- Writes statements. -/
def writeStatements : List Statement → Script → Except ScriptError Script
  | [], script => .ok script
  | statement :: rest, script => do
      let script ← statement.write script
      writeStatements rest script

/-- Writes the expressions of a premise, and gives the condition that it becomes. -/
def Premise.write (premise : Premise) (script : Script) : Except ScriptError (Condition × Script) := do
  let (left, script) ← premise.left.write script
  let (right, script) ← premise.right.write script
  match script.compare left premise.comparison right with
  | (.ok condition, next) => .ok (condition, next)
  | (.error error, _) => .error (.lowering error)

/-- Writes the expressions of premises. -/
def writePremises : List Premise → Script → Except ScriptError (List Condition × Script)
  | [], script => .ok ([], script)
  | premise :: rest, script => do
      let (first, script) ← premise.write script
      let (others, script) ← writePremises rest script
      return (first :: others, script)

/-- Writes the second body of a conditional, if it has one. -/
def writeAlternative : Option (List Statement) → Script → Except ScriptError Script
  | none, script => .ok script
  | some body, script => do
      let script ← script.openElse.mapError .structural
      let script ← writeStatements body script
      script.close.mapError .structural

/-- Writes a sentence: the expressions of its premises first, then the conditional. -/
def Sentence.write : Sentence → Script → Except ScriptError Script
  | plain statement, script => statement.write script
  | conditional all premises body alternative, script => do
      let (conditions, script) ← writePremises premises script
      let script ← (script.openIf all conditions).mapError .structural
      let script ← writeStatements body script
      let script ← script.close.mapError .structural
      writeAlternative alternative script

/-- Writes a program. -/
def writeProgram : List Sentence → Script → Except ScriptError Script
  | [], script => .ok script
  | sentence :: rest, script => do
      let script ← sentence.write script
      writeProgram rest script

end StatScript
