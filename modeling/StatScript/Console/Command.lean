import StatScript.Double.Reader
import StatScript.Script

/-!
# Commands

A command is one statement of a script in words. It is read from left to right while it is carried
out: slots are declared and conditions compared as they come, so a command that turns out to be
wrong half way keeps what it did before.
-/

namespace StatScript.Console

/-! ## Errors -/

/-- Why a command cannot be read. -/
inductive Misreading where
  | command (text : String)
  | connective (word : String)
  | amount (word : String)
  | assignment (word : String)
  | expression
  | exponent (word : String)
  | operator (word : String)
  | condition (text : String)
  | comparison (word : String)
  | teamSlot (word : String)
  | slot (word : String)
deriving DecidableEq, Repr

/-- The message of a misreading. -/
def Misreading.message : Misreading → String
  | command text => s!"cannot parse `{text}`, see :help"
  | connective word => s!"expected `and` or `or`, got `{word}`"
  | amount word => s!"`{word}` is not an integer"
  | assignment word => s!"unknown assignment operator `{word}`"
  | expression => "expected `<a>`, `<a> <op> <b>`, `sign <a>` or `abs <a>`"
  | exponent word => s!"exponent `{word}` must be an integer"
  | operator word => s!"unknown operator `{word}`"
  | condition text => s!"condition `{text}` must be `<a> <cmp> <b>`"
  | comparison word => s!"unknown comparison `{word}`"
  | teamSlot word => s!"team slot `{word}` must be `t:<team>:<name>`"
  | slot word => s!"`{word}` is not a slot (p:, g: or t:)"

/-- Why a command fails. -/
inductive CommandError where
  | misread (error : Misreading)
  | lowering (error : LoweringError)
  | structural (error : StructureError)
deriving DecidableEq, Repr

/-- The message of a command error. -/
def CommandError.message : CommandError → String
  | misread error => "syntax: " ++ error.message
  | lowering error => error.message
  | structural error => error.message

/-! ## Sessions -/

/-- Work on a script that may fail; what was done to the script before a failure stays. -/
abbrev Session := ExceptT CommandError (StateM Script)

namespace Session

/-- Refuses a command that cannot be read. -/
def refuse {α : Type} (error : Misreading) : Session α :=
  throw (.misread error)

/-- Lets a statement of the script fail with a lowering error. -/
def ofLowering {α : Type} (act : Script → Except LoweringError α × Script) : Session α := do
  let (result, script) := act (← get)
  set script
  match result with
  | .ok value => return value
  | .error error => throw (.lowering error)

/-- Lowers an operation. -/
def lower {α : Type} (lowering : Except LoweringError (Emit α)) : Session α :=
  ofLowering fun script => script.lower lowering

/-- Declares a slot. -/
def declare (slot : Slot) : Session Slot :=
  ofLowering fun script =>
    match script.declare slot with
    | .ok (slot, script) => (.ok slot, script)
    | .error error => (.error error, script)

/-- Carries out a control statement. -/
def control (act : Script → Except StructureError Script) : Session Unit := do
  match act (← get) with
  | .ok script => set script
  | .error error => throw (.structural error)

end Session

open Session

/-! ## Operands -/

/-- Reads a slot: `p:name`, `g:name` or `t:team:name`. -/
def slotOfWord (word : String) : Except Misreading Slot :=
  match word.toList with
  | 'p' :: ':' :: name => .ok (.player (String.ofList name))
  | 'g' :: ':' :: name => .ok (.global (String.ofList name))
  | 't' :: ':' :: rest =>
      match Text.cutFirst? ':' rest with
      | some (team, name) => .ok (.team (String.ofList name) (String.ofList team))
      | none => .error (.teamSlot word)
  | _ => .error (.slot word)

/-- Reads a value that is not a slot: a whole number, a decimal, a quoted text or a placeholder. -/
def valueOfWord? (word : String) : Option Operand :=
  match Text.long? word, Double.ofText? word with
  | some value, _ => some (.ofLong value)
  | none, some value => some (.literal (.double value))
  | none, none =>
      match Text.between? "'" "'" word, Text.between? "%" "%" word with
      | some text, _ => some (.literal (.text text))
      | none, some _ => some (.placeholder word .any)
      | none, none => none

/-- Reads and declares a slot. -/
def readSlot (word : String) : Session Slot := do
  match slotOfWord word with
  | .ok slot => declare slot
  | .error error => refuse error

/-- Reads an operand. -/
def readOperand (word : String) : Session Operand := do
  match valueOfWord? word with
  | some value => return value
  | none => return .slot (← readSlot word)

/-- Reads operands one after another. -/
def readOperands : List String → Session (List Operand)
  | [] => return []
  | word :: rest => do
      let operand ← readOperand word
      return operand :: (← readOperands rest)

/-! ## Expressions -/

/-- The operation of two operands that an operator stands for. Division already goes toward zero,
so both division signs are the same. -/
def operation? (operator : String) :
    Option (Operand → Operand → Except LoweringError (Emit Operand)) :=
  match operator with
  | "+" => some (Lowering.basic .add)
  | "-" => some (Lowering.basic .sub)
  | "*" => some (Lowering.basic .mul)
  | "/" | "//" => some (Lowering.basic .div)
  | "%" => some Lowering.modulo
  | _ => none

/-- Reads an expression and lowers it. -/
def readExpression (words : List String) : Session Operand := do
  match words with
  | [value] => readOperand value
  | ["sign", value] => lower (Lowering.sign (← readOperand value) 1 false)
  | ["abs", value] => lower (Lowering.abs (← readOperand value) none)
  | [base, "**", exponent] =>
      let base ← readOperand base
      match Text.long? exponent with
      | some n => lower (Lowering.power .shorter base n.toInt)
      | none => refuse (.exponent exponent)
  | [left, operator, right] =>
      let left ← readOperand left
      let right ← readOperand right
      match operation? operator with
      | some operation => lower (operation left right)
      | none =>
          modify Script.withdrawElse
          refuse (.operator operator)
  | _ => refuse .expression

/-! ## Conditions -/

/-- Reads one condition: an operand, a comparison and an operand. -/
def readCondition (text : String) : Session Condition := do
  match Text.words text with
  | [left, symbol, right] =>
      match Comparison.ofSymbol? symbol with
      | some comparison =>
          let left ← readOperand left
          let right ← readOperand right
          ofLowering fun script => script.compare left comparison right
      | none => refuse (.comparison symbol)
  | _ => refuse (.condition text)

/-- Reads conditions one after another. -/
def readConditions : List String → Session (List Condition)
  | [] => return []
  | text :: rest => do
      let condition ← readCondition text
      return condition :: (← readConditions rest)

/-- The parts of a text between marks, trimmed; empty parts are left out. -/
def parts (mark : Char) (text : String) : List String :=
  ((Text.fields mark text.toList).map fun field => Text.trim (String.ofList field)).filter (· ≠ "")

/-! ## Statements -/

/-- The operation of an assignment that combines. -/
def assignOp? (word : String) : Option AssignOp :=
  match word with
  | "+=" => some (.basic .add)
  | "-=" => some (.basic .sub)
  | "*=" => some (.basic .mul)
  | "/=" => some (.basic .div)
  | "%=" => some .mod
  | _ => none

/-- Carries out an `if` statement. Its conditions are read before its connective. -/
def executeIf (connective : String) (rest : List String) : Session Unit := do
  let conditions ← readConditions (parts ',' (Text.unwords rest))
  match connective with
  | "and" => control fun script => script.openIf true conditions
  | "or" => control fun script => script.openIf false conditions
  | _ => refuse (.connective connective)

/-- Carries out an assignment that combines. -/
def executeAssignOp (target operator value : String) : Session Unit := do
  let target ← readSlot target
  match assignOp? operator with
  | some op =>
      let value ← readOperand value
      lower (Lowering.assignOp target op value)
  | none => refuse (.assignment operator)

/-- Carries out a statement that is given by its words; `command` is its full text. -/
def executeWords (command : String) (words : List String) : Session Unit := do
  match words with
  | "if" :: connective :: rest => executeIf connective rest
  | ["else"] => control Script.openElse
  | ["end"] => control Script.close
  | ["goto", name] => control fun script => script.goto name
  | ["call", name] => modify fun script => script.call name
  | "note" :: words =>
      let operands ← readOperands words
      modify fun script => script.note operands
  | ["exit"] => modify Script.exit
  | ["cancel"] => modify Script.cancel
  | ["fullheal"] => modify Script.fullHeal
  | ["maxhealth", amount] =>
      match Text.long? amount with
      | some value => modify fun script => script.maxHealth value
      | none => refuse (.amount amount)
  | target :: "=" :: rest =>
      let target ← readSlot target
      let value ← readExpression rest
      lower (Lowering.assign target value)
  | [target, operator, value] =>
      if operator.toList.getLast? = some '=' then executeAssignOp target operator value
      else refuse (.command command)
  | _ => refuse (.command command)

/-- Carries out a command. What begins with two slashes is a comment. -/
def execute (command : String) : Session Unit := do
  match Text.behind? "//" command with
  | some text => modify fun script => script.comment (Text.trim text)
  | none => executeWords command (Text.words command)

/-- Carries out commands until one fails. -/
def executeAll : List String → Session Unit
  | [] => return ()
  | command :: rest => do
      execute command
      executeAll rest

/-- Carries out a command on a script. -/
def run (script : Script) (command : String) : Except CommandError Unit × Script :=
  (execute command).run script

end StatScript.Console
