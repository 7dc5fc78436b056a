/-!
# Cutting text

The cuts that the readers of this library make: the rest behind a known beginning, the part
before a known ending, the two sides of a mark, the fields between marks, and the part between two
byte offsets. No cut loses a character other than the mark itself.
-/

namespace StatScript.Text

/-- The rest of the text behind `lead`, if the text begins with it. -/
def after? : (lead text : List Char) → Option (List Char)
  | [], text => some text
  | _ :: _, [] => none
  | a :: lead, c :: text => if a = c then after? lead text else none

/-- The part of the text before `tail`, if the text ends with it. -/
def before? (tail text : List Char) : Option (List Char) :=
  (after? tail.reverse text.reverse).map List.reverse

/-- The two sides of the first occurrence of a mark. -/
def cutFirst? (mark : Char) : List Char → Option (List Char × List Char)
  | [] => none
  | c :: cs =>
      if c = mark then some ([], cs)
      else (cutFirst? mark cs).map fun (left, right) => (c :: left, right)

/-- The two sides of the last occurrence of a mark. -/
def cutLast? (mark : Char) (cs : List Char) : Option (List Char × List Char) :=
  (cutFirst? mark cs.reverse).map fun (right, left) => (left.reverse, right.reverse)

/-- Puts a character in front of the first field. -/
def consField (c : Char) : List (List Char) → List (List Char)
  | [] => [[c]]
  | field :: fields => (c :: field) :: fields

/-- The fields between the occurrences of a mark; there is always at least one. -/
def fields (mark : Char) : List Char → List (List Char)
  | [] => [[]]
  | c :: cs => if c = mark then [] :: fields mark cs else consField c (fields mark cs)

/-- The fields between the occurrences of a comma with a space behind it. -/
def listItems : List Char → List (List Char)
  | [] => [[]]
  | ',' :: ' ' :: cs => [] :: listItems cs
  | c :: cs => consField c (listItems cs)

/-- The two sides of a text at a byte offset. Inside a character and behind the end there is no cut. -/
def cutAt? : Nat → List Char → Option (List Char × List Char)
  | 0, cs => some ([], cs)
  | _ + 1, [] => none
  | offset + 1, c :: cs =>
      if c.utf8Size ≤ offset + 1 then
        (cutAt? (offset + 1 - c.utf8Size) cs).map fun (left, right) => (c :: left, right)
      else none

/-! ## On strings -/

/-- The rest of the text behind `lead`, if the text begins with it. -/
def behind? (lead text : String) : Option String :=
  (after? lead.toList text.toList).map String.ofList

/-- Whether the text begins with `lead`. -/
def beginsWith (lead text : String) : Bool :=
  (after? lead.toList text.toList).isSome

/-- The text between a known beginning and a known ending, which must not overlap. -/
def between? (lead tail text : String) : Option String := do
  let rest ← after? lead.toList text.toList
  let inner ← before? tail.toList rest
  return String.ofList inner

/-- The part of a text from one byte offset up to another. -/
def slice? (text : String) (start stop : Nat) : Option String := do
  let (left, _) ← cutAt? stop text.toList
  let (_, part) ← cutAt? start left
  return String.ofList part

end StatScript.Text
