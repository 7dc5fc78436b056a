import StatScript.Comparison
import StatScript.Lowering.Code
import StatScript.Text.Blank
import StatScript.Text.Cut
import StatScript.Text.Numeral

/-!
# The target machine

A machine that runs the changes and conditionals of a program by their text. Every cell holds a
64-bit number, zero at first, under the left side that names it; arithmetic wraps and division goes
toward zero. A line that cannot be read and a division by zero are faults, which end the run. Calls,
exits and headers have no effect here.
-/

namespace StatScript

/-- Why a run ends early. -/
inductive Fault where
  | unreadableChange (text : String)
  | unreadableCondition (text : String)
  | unreadableValue (text : String)
  | divisionByZero
deriving DecidableEq, Repr

/-! ## Cells -/

/-- The cells of a machine, the latest first. -/
structure Store where
  cells : List (String × Int64) := []
deriving DecidableEq

namespace Store

/-- The number in a cell. -/
def get (store : Store) (cell : String) : Int64 :=
  (store.cells.lookup cell).getD 0

/-- Puts a number into a cell. -/
def set (store : Store) (cell : String) (value : Int64) : Store :=
  { cells := (cell, value) :: store.cells }

@[simp]
theorem get_set (store : Store) (cell other : String) (value : Int64) :
    (store.set cell value).get other = if other = cell then value else store.get other := by
  by_cases h : other = cell
  · simp [get, set, h]
  · simp [get, set, List.lookup_cons, h, beq_eq_false_iff_ne.mpr h]

end Store

/-! ## Reading -/

/-- The first word that `read` understands, with the words before and behind it. -/
def cutAtWord? {α : Type} (read : String → Option α) :
    List String → Option (List String × α × List String)
  | [] => none
  | word :: rest =>
      match read word with
      | some found => some ([], found, rest)
      | none => (cutAtWord? read rest).map fun (before, found, behind) =>
          (word :: before, found, behind)

/-- The modes of a change. -/
def Mode.all : List Mode :=
  [set, combine .add, combine .sub, combine .mul, combine .div]

/-- The mode with a given word. -/
def Mode.ofWord? (word : String) : Option Mode :=
  Mode.all.find? fun mode => mode.word = word

/-- How the right side of a change names a cell, beside the left side of the same cell. -/
def cellForms : List (String × String) :=
  [("stat.player/", "stat "), ("stat.global/", "globalstat "), ("stat.team/", "teamstat ")]

/-- The cell that the right side of a change names; percent signs at its ends do not matter. -/
def cellOfRight? (value : String) : Option String :=
  let inner := String.ofList (Text.dropEnds (· = '%') value.toList)
  cellForms.findSome? fun (right, left) => (Text.behind? right inner).map (left ++ ·)

namespace Store

/-- The number that a value stands for: a numeral, or the cell that it names. -/
def resolve (store : Store) (value : String) : Except Fault Int64 :=
  match Text.long? value with
  | some number => .ok number
  | none =>
      match cellOfRight? value with
      | some cell => .ok (store.get cell)
      | none => .error (.unreadableValue value)

/-- The number that an operand stands for. -/
def eval (store : Store) (operand : Operand) : Except Fault Int64 :=
  store.resolve operand.right

/-! ## Changes -/

/-- A basic operation on two numbers. -/
def calculate : BasicOp → Int64 → Int64 → Except Fault Int64
  | .add, a, b => .ok (a + b)
  | .sub, a, b => .ok (a - b)
  | .mul, a, b => .ok (a * b)
  | .div, a, b => if b = 0 then .error .divisionByZero else .ok (a / b)

/-- The number that a change leaves in its cell. -/
def outcome (mode : Mode) (current value : Int64) : Except Fault Int64 :=
  match mode with
  | .set => .ok value
  | .combine op => calculate op current value

/-- Performs a change: the words before the mode name the cell, those behind it the value. -/
def perform (store : Store) (text : String) : Except Fault Store :=
  match cutAtWord? Mode.ofWord? (Text.words text) with
  | none => .error (.unreadableChange text)
  | some (target, mode, value) => do
      let cell := Text.unwords target
      let value ← store.resolve (Text.unwords value)
      let next ← outcome mode (store.get cell) value
      return store.set cell next

/-! ## Conditions -/

/-- Whether a condition holds. The words before the comparison name a cell. -/
def holds (store : Store) (condition : String) : Except Fault Bool :=
  match cutAtWord? Comparison.ofSymbol? (Text.words condition) with
  | none => .error (.unreadableCondition condition)
  | some (subject, comparison, value) => do
      let value ← store.resolve (Text.unwords value)
      return comparison.holds (store.get (Text.unwords subject)) value

/-- Whether all conditions hold; those behind one that does not are not read. -/
def holdsAll (store : Store) : List String → Except Fault Bool
  | [] => .ok true
  | condition :: rest => do
      if ← store.holds condition then store.holdsAll rest else return false

/-- Whether some condition holds; those behind one that does are not read. -/
def holdsAny (store : Store) : List String → Except Fault Bool
  | [] => .ok false
  | condition :: rest => do
      if ← store.holds condition then return true else store.holdsAny rest

end Store

/-- The text between the first opening and the last closing bracket behind it, trimmed. -/
def bracketed (text : String) : List Char :=
  match Text.cutFirst? '(' text.toList with
  | none => []
  | some (_, rest) =>
      match Text.cutLast? ')' rest with
      | none => []
      | some (inner, _) => Text.dropEnds Text.isBlank inner

/-- The conditions in the line of a conditional. -/
def conditionsOf (text : String) : List String :=
  match bracketed text with
  | [] => []
  | inner => (Text.listItems inner).map String.ofList

namespace Store

/-- Whether a conditional is entered. Without conditions it always is. -/
def enters (store : Store) (text : String) (all : Bool) : Except Fault Bool :=
  match conditionsOf text with
  | [] => .ok true
  | conditions => if all then store.holdsAll conditions else store.holdsAny conditions

end Store

/-! ## Runs -/

/-- A machine: its cells, and whether the lines of the current body are skipped. -/
structure Machine where
  store : Store := {}
  skipping : Bool := false
deriving DecidableEq

namespace Machine

/-- Runs one line. -/
def step (machine : Machine) (line : Line) : Except Fault Machine :=
  match line.tag with
  | .openAll => do
      return { machine with skipping := !(← machine.store.enters line.text true) }
  | .openAny => do
      return { machine with skipping := !(← machine.store.enters line.text false) }
  | .elseOpen => .ok { machine with skipping := !machine.skipping }
  | .close | .elseClose => .ok { machine with skipping := false }
  | .change _ =>
      if machine.skipping then .ok machine
      else do return { machine with store := ← machine.store.perform line.text }
  | _ => .ok machine

/-- Runs lines from a given state on. -/
def run (machine : Machine) : List Line → Except Fault Machine
  | [] => .ok machine
  | line :: rest => do
      let next ← machine.step line
      next.run rest

end Machine

/-- Runs a program from given cells. -/
def Store.run (store : Store) (lines : List Line) : Except Fault Store :=
  (Machine.run { store } lines).map Machine.store

end StatScript
