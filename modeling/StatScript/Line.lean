import StatScript.Operand

/-!
# Lines

A program of the target is a list of lines. The tag of a line says which part it plays; the text is
what the target reads. Only the tag decides how deep a line stands and what room it takes.
-/

namespace StatScript

/-- The kinds of change that the target counts apart. -/
inductive ChangeKind where
  | player
  | global
  | team
  | misc
deriving DecidableEq, Repr

/-- All kinds of change, in the order in which counts are listed. -/
def ChangeKind.all : List ChangeKind :=
  [player, global, team, misc]

/-- The kind under which a change of a slot counts. -/
def SlotKey.changeKind : SlotKey → ChangeKind
  | player _ | temp _ => .player
  | global _ => .global
  | team _ _ => .team

/-- The part that a line plays. `openAll` and `openAny` start a conditional, `elseOpen` starts its
second body, `close` and `elseClose` end it, and `header` starts a container. -/
inductive Tag where
  | change (kind : ChangeKind)
  | openAll
  | openAny
  | close
  | elseOpen
  | elseClose
  | call
  | exit
  | cancel
  | misc
  | header
  | comment
deriving DecidableEq, Repr

namespace Tag

/-- Whether the line starts a conditional. -/
def opens : Tag → Bool
  | openAll | openAny => true
  | _ => false

/-- Whether the line ends the body before it. -/
def closesBody : Tag → Bool
  | close | elseOpen | elseClose => true
  | _ => false

/-- Whether the line ends a conditional. -/
def closes : Tag → Bool
  | close | elseClose => true
  | _ => false

end Tag

/-- A line of the target. `autoUnset` marks the line that defines a temp, and `indent` is the depth
at which the line is printed. -/
structure Line where
  text : String
  tag : Tag
  autoUnset : Bool := false
  indent : Nat := 0
deriving DecidableEq, Repr

namespace Line

/-- The line that ends a conditional. -/
def closing : Line := { text := "\x7d", tag := .close }

/-- The number of spaces before a line: four for each level of depth. -/
def margin (line : Line) : Nat :=
  4 * line.indent

/-- The line as it is printed. -/
def print (line : Line) : String :=
  String.ofList (List.replicate line.margin ' ') ++ line.text

/-- A whole program as it is printed. -/
def printAll (lines : List Line) : String :=
  String.join (lines.map fun line => line.print ++ "\n")

/-- The widest margin that can be printed, the largest number of 16 bits. -/
def maxMargin : Nat := 65535

/-- Whether a line stands at a depth that can be printed. -/
def isPrintable (line : Line) : Bool :=
  line.margin ≤ maxMargin

/-- A whole program as it is printed, unless one of its lines stands too deep. Lines whose depth
follows from the tags of a program without nesting never do. -/
def printAll? (lines : List Line) : Option String :=
  if lines.all isPrintable then some (printAll lines) else none

/-! ## Depth

The depth of a line follows from the tags before it, starting anew at each header. -/

/-- The depth at which a line stands, at depth `depth` before it. -/
def depthOf (depth : Nat) : Tag → Nat
  | .close | .elseClose | .elseOpen => depth - 1
  | .header => 0
  | _ => depth

/-- The depth behind a line, at depth `depth` before it. -/
def depthAfter (depth : Nat) : Tag → Nat
  | .openAll | .openAny => depth + 1
  | .close | .elseClose => depth - 1
  | .header => 0
  | _ => depth

/-- The lines with the depth that follows from their tags, from a given depth on. -/
def reindentFrom (depth : Nat) : List Line → List Line
  | [] => []
  | line :: rest =>
      { line with indent := depthOf depth line.tag } :: reindentFrom (depthAfter depth line.tag) rest

/-- The lines with the depth that follows from their tags. -/
def reindent (lines : List Line) : List Line :=
  reindentFrom 0 lines

end Line

/-! ## Tallies -/

/-- A number for each kind of change. -/
structure Tally where
  player : Nat := 0
  global : Nat := 0
  team : Nat := 0
  misc : Nat := 0
deriving DecidableEq, Repr

namespace Tally

/-- Nothing counted yet. -/
def zero : Tally := {}

/-- The number for one kind. -/
def get (tally : Tally) : ChangeKind → Nat
  | .player => tally.player
  | .global => tally.global
  | .team => tally.team
  | .misc => tally.misc

/-- One more of a kind. -/
def bump (tally : Tally) : ChangeKind → Tally
  | .player => { tally with player := tally.player + 1 }
  | .global => { tally with global := tally.global + 1 }
  | .team => { tally with team := tally.team + 1 }
  | .misc => { tally with misc := tally.misc + 1 }

/-- One of a kind and none of the others. -/
def one (kind : ChangeKind) : Tally := zero.bump kind

/-- The changes of each kind in a list of lines. -/
def ofLines : List Line → Tally
  | [] => zero
  | line :: rest =>
      match line.tag with
      | .change kind => (ofLines rest).bump kind
      | _ => ofLines rest

@[simp]
theorem get_bump (tally : Tally) (kind other : ChangeKind) :
    (tally.bump kind).get other = tally.get other + if other = kind then 1 else 0 := by
  cases kind <;> cases other <;> rfl

@[simp]
theorem get_empty (kind : ChangeKind) : get {} kind = 0 := by
  cases kind <;> rfl

@[simp]
theorem get_zero (kind : ChangeKind) : zero.get kind = 0 :=
  get_empty kind

@[simp]
theorem get_one (kind other : ChangeKind) : (one kind).get other = if other = kind then 1 else 0 := by
  simp [one]

end Tally

end StatScript
