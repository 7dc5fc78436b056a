import StatScript.Lowering.Error

/-!
# The registry of slots

Every slot of a script is declared, once or often. The first concrete type declared for a key is
its type from then on; a later declaration with another concrete type is refused and changes
nothing. Keys keep the order of their first declaration.
-/

namespace StatScript

/-- The slots declared so far, each key once. -/
structure Registry where
  slots : List Slot := []
deriving DecidableEq, Repr

namespace Registry

/-- The slot declared under a key. -/
def find? (registry : Registry) (key : SlotKey) : Option Slot :=
  registry.slots.find? fun slot => slot.key = key

/-- The number of keys declared. -/
def size (registry : Registry) : Nat :=
  registry.slots.length

/-- Gives the slot of a key a type. -/
def retype (registry : Registry) (key : SlotKey) (type : ValueType) : Registry :=
  { slots := registry.slots.map fun slot => if slot.key = key then slot.typed type else slot }

/-- Declares a slot and returns it with the type that its key has now. -/
def declare (registry : Registry) (slot : Slot) : Except LoweringError (Slot × Registry) :=
  match registry.find? slot.key with
  | none => .ok (slot, { slots := registry.slots ++ [slot] })
  | some existing =>
      if slot.type = .any ∨ slot.type = existing.type then .ok (existing, registry)
      else if existing.type = .any then
        .ok (existing.typed slot.type, registry.retype slot.key slot.type)
      else .error (.type (.redeclared existing slot))

end Registry

end StatScript
