import StatScript.Fitting.Supply
import StatScript.Limits

/-!
# Fitting one body

The lines of a container are written one after another while the room they take is counted: the
changes outside conditionals, the changes in the current body, and the conditionals. A change that
has no room outside goes into a filler, a conditional that is always entered and has room of its
own. When no filler may be opened any more, or a body is full, the program is divided at that line:
in a named container the lines are moved into an auxiliary one and called, elsewhere a placeholder
is written and counting starts anew.
-/

namespace StatScript.Fitting

/-! ## Room -/

/-- Where the next line stands: outside conditionals, in a conditional of the program, or in a
filler. -/
inductive Place where
  | outside
  | conditional
  | filler
deriving DecidableEq, Repr

/-- The room taken so far. -/
structure Room where
  place : Place := .outside
  openings : Nat := 0
  outside : Tally := {}
  inside : Tally := {}
deriving DecidableEq, Repr

/-! ## One line -/

/-- What is done with a line, and the room taken behind it. Where the program is divided the room is
that behind a placeholder. -/
inductive Action where
  | keep (room : Room)
  | fill (room : Room)
  | divideRest (room : Room)
  | divideBody (room : Room)
deriving DecidableEq, Repr

/-- The action for a line, and whether the filler around it is closed before. -/
structure Verdict where
  closesFiller : Bool
  action : Action
deriving DecidableEq, Repr

/-- A conditional counts as an opening and starts an empty body. It is never put into a filler. -/
def openAction (limits : Limits) (room : Room) : Action :=
  if limits.conditionals ≤ room.openings then
    .divideRest { place := .conditional, openings := 1 }
  else
    .keep { room with place := .conditional, openings := room.openings + 1, inside := {} }

/-- A change outside conditionals. -/
def outsideAction (limits : Limits) (room : Room) (kind : ChangeKind) : Action :=
  if room.outside.get kind < limits.changes then
    .keep { room with outside := room.outside.bump kind }
  else if room.openings < limits.conditionals then
    .fill { room with place := .filler, openings := room.openings + 1, inside := Tally.one kind }
  else
    .divideRest { room with openings := 0, outside := Tally.one kind }

/-- A change in a conditional of the program. -/
def insideAction (limits : Limits) (room : Room) (kind : ChangeKind) : Action :=
  if room.inside.get kind < limits.changes then
    .keep { room with inside := room.inside.bump kind }
  else
    .divideBody { room with inside := Tally.one kind }

/-- A change, by the place where it stands. A full filler is closed first. -/
def changeVerdict (limits : Limits) (room : Room) (kind : ChangeKind) : Verdict :=
  match room.place with
  | .outside => ⟨false, outsideAction limits room kind⟩
  | .conditional => ⟨false, insideAction limits room kind⟩
  | .filler =>
      if room.inside.get kind < limits.changes then
        ⟨false, .keep { room with inside := room.inside.bump kind }⟩
      else ⟨true, outsideAction limits { room with place := .outside } kind⟩

/-- Behind a placeholder of the program counting starts anew, for the body that it stands in or for
all that is outside. -/
def placeholderVerdict (room : Room) : Verdict :=
  match room.place with
  | .conditional => ⟨false, .keep { room with inside := {} }⟩
  | place =>
      ⟨place = .filler, .keep { room with place := .outside, openings := 0, outside := {} }⟩

/-- The verdict on a line. -/
def judge (limits : Limits) (room : Room) (line : Line) : Verdict :=
  match line.tag with
  | .openAll | .openAny => ⟨room.place = .filler, openAction limits room⟩
  | .elseOpen => ⟨false, .keep { room with inside := {} }⟩
  | .close | .elseClose => ⟨false, .keep { room with place := .outside }⟩
  | .change kind => changeVerdict limits room kind
  | .comment =>
      if isPlaceholder line then placeholderVerdict room else ⟨false, .keep room⟩
  | _ => ⟨false, .keep room⟩

/-! ## All lines -/

/-- Lines moved into an auxiliary container. -/
structure Relocation where
  name : String
  body : List Line
deriving DecidableEq, Repr

/-- A fitted body: its lines, the lines moved out of it, the placeholders and fillers written into
it, and the names that are left. -/
structure Fitted where
  lines : List Line := []
  moved : List Relocation := []
  placeholders : List Nat := []
  fillers : Nat := 0
  supply : Supply
deriving DecidableEq, Repr

namespace Fitted

/-- Lines in front of a fitted body. -/
def after (lines : List Line) (fitted : Fitted) : Fitted :=
  { fitted with lines := lines ++ fitted.lines }

/-- Lines in front of a fitted body of which the last opens a filler. -/
def afterFiller (lines : List Line) (fitted : Fitted) : Fitted :=
  { fitted.after lines with fillers := fitted.fillers + 1 }

/-- Lines in front of a fitted body that hold a placeholder. -/
def afterPlaceholder (lines : List Line) (number : Nat) (fitted : Fitted) : Fitted :=
  { fitted.after lines with placeholders := number :: fitted.placeholders }

/-- Lines in front of a fitted body that call an auxiliary container. -/
def afterCall (lines : List Line) (relocation : Relocation) (fitted : Fitted) : Fitted :=
  { fitted.after lines with moved := relocation :: fitted.moved }

end Fitted

/-- Whether a line belongs to the body around the lines before it. -/
def staysInBody (line : Line) : Bool :=
  !line.tag.closesBody

/-- The line that closes a filler, if it is closed. -/
def fillerEnd (closes : Bool) : List Line :=
  if closes then [Line.closing] else []

/-- Fits lines into a container with or without a name, with some room taken already. -/
def fit (limits : Limits) (base : Option String) (room : Room) (supply : Supply) :
    List Line → Fitted
  | [] => { lines := fillerEnd (room.place = .filler), supply }
  | line :: rest =>
      let verdict := judge limits room line
      let before := fillerEnd verdict.closesFiller
      match verdict.action, base with
      | .keep next, _ =>
          (fit limits base next supply rest).after (before ++ [line])
      | .fill next, _ =>
          (fit limits base next supply rest).afterFiller (before ++ [fillerLine, line])
      | .divideRest _, some name =>
          let (auxiliary, supply) := supply.nextName name
          Fitted.afterCall (before ++ [callLine auxiliary]) ⟨auxiliary, line :: rest⟩ { supply }
      | .divideBody _, some name =>
          let (auxiliary, supply) := supply.nextName name
          (fit limits base room supply (rest.dropWhile staysInBody)).afterCall
            (before ++ [callLine auxiliary]) ⟨auxiliary, line :: rest.takeWhile staysInBody⟩
      | .divideRest next, none | .divideBody next, none =>
          let (number, supply) := supply.nextPlaceholder
          (fit limits base next supply rest).afterPlaceholder
            (before ++ [placeholderLine number, line]) number
termination_by lines => lines.length
decreasing_by
  all_goals simp only [List.length_cons]
  all_goals first
    | exact Nat.lt_succ_self _
    | exact Nat.lt_succ_of_le (List.dropWhile_sublist _).length_le

end StatScript.Fitting
