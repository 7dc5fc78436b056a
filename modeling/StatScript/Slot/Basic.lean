import StatScript.ValueType

/-!
# Slots

A slot is a named cell of the target: a stat of the player, of the whole game or of a team, or a
temp that the lowering hands out. Its key alone is its identity; the declared type is not part of
it. A slot has three texts: the left side of a change, the right side of one, and the form shown in
messages.
-/

namespace StatScript

/-- The identity of a slot. Temps are numbered from one. -/
inductive SlotKey where
  | player (name : String)
  | global (name : String)
  | team (name team : String)
  | temp (number : Nat)
deriving DecidableEq, Repr

namespace SlotKey

/-- Where the slot lives. -/
def scope : SlotKey → String
  | player _ => "player"
  | global _ => "global"
  | team _ _ => "team"
  | temp _ => "temp"

/-- The name of the slot within its scope. -/
def name : SlotKey → String
  | player name | global name | team name _ => name
  | temp number => "_t" ++ number.repr

/-- The team that holds a team slot. -/
def team? : SlotKey → Option String
  | team _ holder => some holder
  | _ => none

/-- A temp lives as a stat of the player. -/
def isTemp : SlotKey → Bool
  | temp _ => true
  | _ => false

/-- The name with the team behind it, if there is one. -/
def qualifiedName (key : SlotKey) : String :=
  match key.team? with
  | some holder => key.name ++ " " ++ holder
  | none => key.name

/-- The word that starts the left side of a change. -/
def leftWord : SlotKey → String
  | player _ | temp _ => "stat"
  | global _ => "globalstat"
  | team _ _ => "teamstat"

/-- The word that stands for the scope on the right side of a change. -/
def rightWord : SlotKey → String
  | player _ | temp _ => "player"
  | global _ => "global"
  | team _ _ => "team"

/-- The left side of a change, as `teamstat kills red`. -/
def left (key : SlotKey) : String :=
  key.leftWord ++ " " ++ key.qualifiedName

/-- The right side of a change, as `%stat.team/kills red%`. -/
def right (key : SlotKey) : String :=
  "%stat." ++ key.rightWord ++ "/" ++ key.qualifiedName ++ "%"

/-- The form shown in messages, as `team.kills[red]`. -/
def display (key : SlotKey) : String :=
  match key.team? with
  | some holder => key.scope ++ "." ++ key.name ++ "[" ++ holder ++ "]"
  | none => key.scope ++ "." ++ key.name

end SlotKey

/-- A slot with its declared type. -/
structure Slot where
  key : SlotKey
  type : ValueType := .any
deriving DecidableEq, Repr

namespace Slot

/-- A stat of the player. -/
def player (name : String) : Slot := { key := .player name }

/-- A stat of the whole game. -/
def global (name : String) : Slot := { key := .global name }

/-- A stat of a team. -/
def team (name team : String) : Slot := { key := .team name team }

/-- The same slot with a declared type. -/
def typed (slot : Slot) (type : ValueType) : Slot := { slot with type }

/-- The left side of a change of this slot. -/
def left (slot : Slot) : String := slot.key.left

/-- The right side of a change that reads this slot. -/
def right (slot : Slot) : String := slot.key.right

/-- The form shown in messages. -/
def display (slot : Slot) : String := slot.key.display

end Slot

/-- A temp: the number that names it and the type of what it holds. -/
structure Temp where
  number : Nat
  type : ValueType
deriving DecidableEq, Repr

/-- The slot of a temp. -/
def Temp.slot (temp : Temp) : Slot :=
  { key := .temp temp.number, type := temp.type }

end StatScript
