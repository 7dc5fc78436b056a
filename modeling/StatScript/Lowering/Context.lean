import StatScript.Listing
import StatScript.Lowering.Arithmetic
import StatScript.Slot.Registry

/-!
# The context of lowering

One registry and one count of temps serve a whole script. Lowering an operation writes all of its
code at the end of a listing, at the current depth, or leaves everything as it was.
-/

namespace StatScript

/-- What all containers of a script share. -/
structure Context where
  registry : Registry := {}
  temps : Nat := 0
deriving DecidableEq, Repr

namespace Context

/-- Declares a slot. -/
def declare (context : Context) (slot : Slot) : Except LoweringError (Slot × Context) := do
  let (slot, registry) ← context.registry.declare slot
  return (slot, { context with registry })

/-- Writes code at the end of a listing. -/
def write {α : Type} (context : Context) (listing : Listing) (emit : Emit α) :
    α × Context × Listing :=
  let code := emit context.temps
  (code.result, { context with temps := code.temps }, listing.pushAll (code.changes.map Change.line))

/-- Lowers an operation at the end of a listing. -/
def lower {α : Type} (context : Context) (listing : Listing)
    (lowering : Except LoweringError (Emit α)) : Except LoweringError (α × Context × Listing) :=
  lowering.map (context.write listing)

end Context

end StatScript
