import StatScript.Listing

/-!
# Segments

A program is a list of containers, of which only the first has no header. A conditional has one
body or two, the second behind an `else`, and neither headers nor conditionals stand inside it. The
check reports the first line that breaks this rule.
-/

namespace StatScript.Fitting

/-! ## The check -/

/-- Where a line stands: outside conditionals, or in the first or second body of the one opened at
a given line. -/
inductive Nesting where
  | outside
  | body (index : Nat) (text : String)
  | elseBody (index : Nat) (text : String)
deriving DecidableEq, Repr

/-- Where the line behind stands, if the line at `index` may stand here. -/
def Nesting.step (nesting : Nesting) (index : Nat) (line : Line) :
    Except StructureError Nesting :=
  match line.tag, nesting with
  | .header, .outside => .ok .outside
  | .header, _ => .error (.headerInsideConditional index line.text)
  | .openAll, .outside | .openAny, .outside => .ok (.body index line.text)
  | .openAll, _ | .openAny, _ => .error (.nestedConditional index line.text)
  | .elseOpen, .body opened text => .ok (.elseBody opened text)
  | .elseOpen, _ => .error (.elseWithoutIf index)
  | .close, .outside | .elseClose, .outside => .error (.unmatchedClose index line.text)
  | .close, _ | .elseClose, _ => .ok .outside
  | _, _ => .ok nesting

/-- A program may end only outside conditionals. -/
def Nesting.finish : Nesting → Except StructureError Unit
  | outside => .ok ()
  | body index text | elseBody index text => .error (.unclosedConditional index text)

/-- Checks the lines from `index` on. -/
def checkFrom (nesting : Nesting) (index : Nat) : List Line → Except StructureError Unit
  | [] => nesting.finish
  | line :: rest => do
      let next ← nesting.step index line
      checkFrom next (index + 1) rest

/-- Checks the structure of a program. -/
def check (lines : List Line) : Except StructureError Unit :=
  checkFrom .outside 0 lines

/-! ## The cut -/

/-- A container: its header and name, if it has them, and the lines up to the next header. -/
structure Segment where
  header : Option Line
  name : Option String
  body : List Line
deriving DecidableEq, Repr

/-- The lines before the first header, and the containers behind them. -/
def cut (naming : Line → Option String) : List Line → List Line × List Segment
  | [] => ([], [])
  | line :: rest =>
      let (body, segments) := cut naming rest
      if line.tag = .header then
        ([], { header := some line, name := naming line, body } :: segments)
      else (line :: body, segments)

/-- The containers of a program. The first has no header and may be empty. -/
def segments (naming : Line → Option String) (lines : List Line) : List Segment :=
  let (body, rest) := cut naming lines
  { header := none, name := none, body } :: rest

end StatScript.Fitting
