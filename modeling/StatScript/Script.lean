import StatScript.Fitting.Program
import StatScript.Lowering.Assignment
import StatScript.Lowering.Context
import StatScript.Lowering.Power

/-!
# Scripts

A script is written statement by statement into its containers, of which one is current. At most
one conditional is open, and an `else` may follow only the statement that closed the first body.
Finishing puts the containers behind one another in the order of their creation and fits them,
unless the count of placeholders overflows.
A control statement that is refused changes nothing; a lowering that is refused still withdraws the
permission of an `else`.
-/

namespace StatScript

/-- Which body of a conditional is open. -/
inductive Branch where
  | first
  | second
deriving DecidableEq, Repr

/-- A container of a script: its listing, and the number of lines reported at its last checkpoint,
if it had one. -/
structure Container where
  listing : Listing := {}
  reported : Option Nat := none
deriving DecidableEq, Repr

/-- A script while it is written. The container without a name is there from the start. -/
structure Script where
  context : Context := {}
  limits : Limits := {}
  containers : List (Option String × Container) := [(none, {})]
  current : Option String := none
  branch : Option Branch := none
  elseAllowed : Bool := false
deriving DecidableEq, Repr

namespace Script

/-- An empty script for a target with given limits. -/
def new (limits : Limits) : Script := { limits }

/-! ## Containers -/

/-- The current container. -/
def active (script : Script) : Container :=
  (script.containers.lookup script.current).getD {}

/-- Replaces a container, or adds it behind the others. -/
def putContainer (name : Option String) (container : Container) :
    List (Option String × Container) → List (Option String × Container)
  | [] => [(name, container)]
  | (other, old) :: rest =>
      if other = name then (name, container) :: rest
      else (other, old) :: putContainer name container rest

@[simp]
theorem lookup_putContainer (name : Option String) (container : Container)
    (entries : List (Option String × Container)) :
    (putContainer name container entries).lookup name = some container := by
  induction entries with
  | nil => exact List.lookup_cons_self
  | cons entry rest ih =>
      obtain ⟨other, old⟩ := entry
      rw [putContainer]
      split
      · exact List.lookup_cons_self
      · next differs =>
          rw [List.lookup_cons, beq_eq_false_iff_ne.mpr (Ne.symm differs)]
          exact ih

@[simp]
theorem putContainer_putContainer (name : Option String) (first second : Container)
    (entries : List (Option String × Container)) :
    putContainer name second (putContainer name first entries) = putContainer name second entries := by
  induction entries with
  | nil => simp only [putContainer, if_true]
  | cons entry rest ih =>
      obtain ⟨other, old⟩ := entry
      by_cases same : other = name
      · simp only [putContainer, same, if_true]
      · simp only [putContainer, same, if_false, ih]

/-- Replaces the current container. -/
def setActive (script : Script) (container : Container) : Script :=
  { script with containers := putContainer script.current container script.containers }

@[simp]
theorem active_setActive (script : Script) (container : Container) :
    (script.setActive container).active = container := by
  simp [active, setActive]

@[simp]
theorem setActive_setActive (script : Script) (first second : Container) :
    (script.setActive first).setActive second = script.setActive second := by
  simp [setActive]

/-- Replaces the listing of the current container. -/
def setListing (script : Script) (listing : Listing) : Script :=
  script.setActive { script.active with listing }

/-- The listing of the current container. -/
def listing (script : Script) : Listing :=
  script.active.listing

@[simp]
theorem listing_setListing (script : Script) (listing : Listing) :
    (script.setListing listing).listing = listing := by
  simp [Script.listing, setListing]

@[simp]
theorem setListing_setListing (script : Script) (first second : Listing) :
    (script.setListing first).setListing second = script.setListing second := by
  simp [setListing]

/-- The lines of a container, behind its header if it has a name. -/
def containerLines : Option String × Container → List Line
  | (none, container) => container.listing.lines
  | (some name, container) => Fitting.headerLine name :: container.listing.lines

/-- All lines, container by container. -/
def lines (script : Script) : List Line :=
  script.containers.flatMap containerLines

/-! ## Declaring and lowering -/

/-- Declares a slot. -/
def declare (script : Script) (slot : Slot) : Except LoweringError (Slot × Script) := do
  let (slot, context) ← script.context.declare slot
  return (slot, { script with context })

/-- The script once a statement other than `else` has begun. -/
def withdrawElse (script : Script) : Script :=
  { script with elseAllowed := false }

/-- Lowers an operation at the end of the current container. -/
def lower {α : Type} (script : Script) (lowering : Except LoweringError (Emit α)) :
    Except LoweringError α × Script :=
  let script := script.withdrawElse
  match script.context.lower script.listing lowering with
  | .error error => (.error error, script)
  | .ok (result, context, listing) => (.ok result, { script.setListing listing with context })

/-- Lowers a comparison, which writes no code. -/
def compare (script : Script) (left : Operand) (comparison : Comparison) (right : Operand) :
    Except LoweringError Condition × Script :=
  (Lowering.compare left comparison right, script.withdrawElse)

/-! ## Plain lines -/

/-- The line that ends the function. -/
def exitLine : Line := { text := "exit", tag := .exit }

/-- The line that cancels the event. -/
def cancelLine : Line := { text := "cancelEvent", tag := .cancel }

/-- The line of a comment. -/
def commentLine (text : String) : Line :=
  { text := "// " ++ text, tag := .comment }

/-- The line of a comment that shows operands. -/
def noteLine (parts : List Operand) : Line :=
  commentLine (Text.unwords (parts.map Operand.inComment))

/-- The line that sets the maximal health. -/
def maxHealthLine (amount : Int64) : Line :=
  { text := Fitting.maxHealth ++ " " ++ amount.toInt.repr, tag := .change .misc }

/-- The line that heals in full. -/
def fullHealLine : Line := { text := Fitting.fullHeal, tag := .misc }

/-- Appends a line to the current container. -/
def emit (script : Script) (line : Line) : Script :=
  let script := script.withdrawElse
  script.setListing (script.listing.push line)

/-- Calls a container. -/
def call (script : Script) (name : String) : Script :=
  script.emit (Fitting.callLine name)

/-- Ends the function. -/
def exit (script : Script) : Script :=
  script.emit exitLine

/-- Cancels the event. -/
def cancel (script : Script) : Script :=
  script.emit cancelLine

/-- A comment. -/
def comment (script : Script) (text : String) : Script :=
  script.emit (commentLine text)

/-- A comment that shows operands. -/
def note (script : Script) (parts : List Operand) : Script :=
  script.emit (noteLine parts)

/-- Sets the maximal health. -/
def maxHealth (script : Script) (amount : Int64) : Script :=
  script.emit (maxHealthLine amount)

/-- Heals in full. -/
def fullHeal (script : Script) : Script :=
  script.emit fullHealLine

/-! ## Control -/

/-- Makes the container with a name current, and creates it if need be. -/
def goto (script : Script) (name : String) : Except StructureError Script :=
  match script.branch with
  | some _ =>
      .error (.headerInsideConditional script.listing.size (Fitting.headerLine name).text)
  | none =>
      let script := { script.withdrawElse with current := some name }
      .ok (script.setActive script.active)

/-- The line that opens a conditional. -/
def openingLine (all : Bool) (conditions : List Condition) : Line :=
  let inner := ", ".intercalate (conditions.map Condition.text)
  { text := (if all then "if and (" else "if or (") ++ inner ++ ") \x7b"
    tag := if all then .openAll else .openAny }

/-- Opens a conditional that is entered if all conditions hold, or if any does. -/
def openIf (script : Script) (all : Bool) (conditions : List Condition) :
    Except StructureError Script :=
  let line := openingLine all conditions
  match script.branch with
  | some _ => .error (.nestedConditional script.listing.size line.text)
  | none =>
      let script := script.setListing (script.listing.push line).deepen
      .ok { script.withdrawElse with branch := some .first }

/-- Opens the second body of the conditional that was just closed. -/
def openElse (script : Script) : Except StructureError Script :=
  if script.branch = none ∧ script.elseAllowed then do
    let listing ← script.listing.fuse " else \x7b" .elseOpen
    let script := script.setListing listing.deepen
    return { script.withdrawElse with branch := some .second }
  else .error (.elseWithoutIf script.listing.size)

/-- Closes the open body. -/
def close (script : Script) : Except StructureError Script :=
  match script.branch with
  | none => .error (.unmatchedClose script.listing.size Line.closing.text)
  | some branch =>
      let tag := if branch = .first then .close else .elseClose
      let script := script.setListing (script.listing.raise.push { Line.closing with tag })
      .ok { script with branch := none, elseAllowed := branch = .first }

/-! ## Preambles and checkpoints -/

/-- Puts a line into the preamble of the current container. Lines already reported stay so. -/
def preamble (script : Script) (line : Line) : Script :=
  let container := script.active
  script.setActive
    { listing := container.listing.pushPreamble line
      reported := container.reported.map (· + 1) }

/-- The lines that the current container has gained since its last checkpoint. -/
def checkpoint (script : Script) : List Line × Script :=
  let container := script.active
  let lines := container.listing.lines
  (lines.drop (container.reported.getD 0),
    script.setActive { container with reported := some lines.length })

/-! ## Finishing -/

/-- The fitted program. No conditional may be open. -/
def finish (script : Script) : Except StructureError Fitting.Outcome :=
  match script.branch with
  | some _ => .error (.unclosedConditional script.listing.size (script.current.getD ""))
  | none => Fitting.fitProgram script.limits script.lines

/-- The fitted program, unless the count of placeholders overflows. -/
def finish? (script : Script) : Option (Except StructureError Fitting.Outcome) :=
  Fitting.counted? script.finish

end Script

/-- Why a script does not become a program. -/
inductive ScriptError where
  | lowering (error : LoweringError)
  | structural (error : StructureError)
deriving DecidableEq, Repr

/-- The message of a script error. -/
def ScriptError.message : ScriptError → String
  | lowering error => error.message
  | structural error => error.message

/-- Writes a script from the start and finishes it, unless the count of placeholders overflows. -/
def compile? (limits : Limits) (write : Script → Except ScriptError Script) :
    Option (Except ScriptError Fitting.Outcome) :=
  match write (Script.new limits) with
  | .error error => some (.error error)
  | .ok script => script.finish?.map (·.mapError ScriptError.structural)

end StatScript
