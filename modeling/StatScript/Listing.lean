import StatScript.Line

/-!
# Listings

The lines of one container while it is written: a preamble, which only grows, and a body behind it.
Marks count lines from the start of the listing, and no mark cuts into the preamble.
-/

namespace StatScript

/-- Why a program has no valid structure. Indices count lines from zero. -/
inductive StructureError where
  | nestedConditional (index : Nat) (text : String)
  | headerInsideConditional (index : Nat) (text : String)
  | unmatchedClose (index : Nat) (text : String)
  | unclosedConditional (index : Nat) (text : String)
  | elseWithoutIf (index : Nat)
  | nothingToFuse (text : String)
deriving DecidableEq, Repr

/-- The message of a structure error. -/
def StructureError.message : StructureError → String
  | nestedConditional index text =>
      s!"conditional at instruction {index} (`{text}`) is nested inside another conditional"
  | headerInsideConditional index text =>
      s!"container switch at instruction {index} (`{text}`) happens inside a conditional"
  | unmatchedClose index text =>
      s!"instruction {index} (`{text}`) closes a conditional that was never opened"
  | unclosedConditional index text =>
      s!"conditional opened at instruction {index} (`{text}`) is never closed"
  | elseWithoutIf index =>
      s!"`else` at instruction {index} does not follow a closed `if` body"
  | nothingToFuse text =>
      s!"cannot fuse `{text}` onto an empty stream"

/-- The lines of a container: the preamble, the body, and the depth of the next line. -/
structure Listing where
  preamble : List Line := []
  body : List Line := []
  indent : Nat := 0
deriving DecidableEq, Repr

namespace Listing

/-- All lines, in order. -/
def lines (listing : Listing) : List Line :=
  listing.preamble ++ listing.body

/-- The number of lines. -/
def size (listing : Listing) : Nat :=
  listing.lines.length

/-- Appends lines as they are. -/
def extend (listing : Listing) (lines : List Line) : Listing :=
  { listing with body := listing.body ++ lines }

/-- Appends lines at the current depth. -/
def pushAll (listing : Listing) (lines : List Line) : Listing :=
  listing.extend (lines.map fun line => { line with indent := listing.indent })

/-- Appends a line at the current depth. -/
def push (listing : Listing) (line : Line) : Listing :=
  listing.pushAll [line]

/-- Puts a line behind the lines of the preamble. -/
def pushPreamble (listing : Listing) (line : Line) : Listing :=
  { listing with preamble := listing.preamble ++ [{ line with indent := 0 }] }

/-- The next lines stand one level deeper. -/
def deepen (listing : Listing) : Listing :=
  { listing with indent := listing.indent + 1 }

/-- The next lines stand one level higher, if there is one. -/
def raise (listing : Listing) : Listing :=
  { listing with indent := listing.indent - 1 }

/-- Replaces the last line. -/
def setLast (listing : Listing) (line : Line) : Listing :=
  if listing.body = [] then { listing with preamble := listing.preamble.dropLast ++ [line] }
  else { listing with body := listing.body.dropLast ++ [line] }

/-- Writes `suffix` behind the last line and gives it a new tag. The last line must end a
conditional, and no other conditional may be open. -/
def fuse (listing : Listing) (suffix : String) (tag : Tag) : Except StructureError Listing :=
  match listing.lines.getLast? with
  | none => .error (.nothingToFuse suffix)
  | some last =>
      if last.tag = .close ∧ listing.indent = 0 then
        .ok (listing.setLast { last with text := last.text ++ suffix, tag })
      else .error (.elseWithoutIf listing.size)

/-- Drops the lines of the body from a mark on. -/
def truncate (listing : Listing) (mark : Nat) : Listing :=
  { listing with body := listing.body.take (mark - listing.preamble.length) }

/-- Takes the lines of the body from a mark on out of the listing. A mark beyond the end takes
nothing and is refused. -/
def drain? (listing : Listing) (mark : Nat) : Option (List Line × Listing) :=
  let start := mark - listing.preamble.length
  if start ≤ listing.body.length then some (listing.body.drop start, listing.truncate mark)
  else none

end Listing

end StatScript
