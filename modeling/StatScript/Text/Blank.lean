/-!
# Blanks and words

A line of script text is cut at blanks. A blank is a character with the `White_Space` property,
and the maximal runs of blanks and of other characters make up the line: a word is a run without
blanks. Everything here works on lists of characters; the `String` forms stand at the end.
-/

namespace StatScript.Text

/-- The ranges of the `White_Space` property, in ascending order, both ends included. -/
def blankRanges : List (Nat × Nat) :=
  [(0x09, 0x0D), (0x20, 0x20), (0x85, 0x85), (0xA0, 0xA0), (0x1680, 0x1680),
    (0x2000, 0x200A), (0x2028, 0x2029), (0x202F, 0x202F), (0x205F, 0x205F), (0x3000, 0x3000)]

/-- A blank has its code point in one of the ranges. -/
def isBlank (c : Char) : Bool :=
  blankRanges.any fun (lo, hi) => lo ≤ c.toNat && c.toNat ≤ hi

/-! ## Trimming -/

/-- The text from its first character that is not in the class. -/
def dropStart (p : Char → Bool) (cs : List Char) : List Char :=
  cs.dropWhile p

/-- The text up to its last character that is not in the class. -/
def dropEnd (p : Char → Bool) (cs : List Char) : List Char :=
  (cs.reverse.dropWhile p).reverse

/-- The text without the characters of the class at either end. -/
def dropEnds (p : Char → Bool) (cs : List Char) : List Char :=
  dropEnd p (dropStart p cs)

/-! ## Runs and words -/

/-- The maximal runs of blanks and of other characters. Their concatenation is the text, and
neighbouring runs are of different class. -/
def runs : List Char → List (List Char)
  | [] => []
  | c :: cs =>
      match runs cs with
      | (d :: run) :: rest =>
          if isBlank c = isBlank d then (c :: d :: run) :: rest else [c] :: (d :: run) :: rest
      | rest => [c] :: rest

/-- A run is a word if it starts with a character other than a blank. -/
def isWord : List Char → Bool
  | [] => false
  | c :: _ => !isBlank c

/-- The words of a text, in order. -/
def wordRuns (cs : List Char) : List (List Char) :=
  (runs cs).filter isWord

/-! ## On strings -/

/-- The text without blanks at either end. -/
def trim (s : String) : String :=
  String.ofList (dropEnds isBlank s.toList)

/-- The words of a text, in order. -/
def words (s : String) : List String :=
  (wordRuns s.toList).map String.ofList

/-- Words put back on one line, one space between neighbours. -/
def unwords (ws : List String) : String :=
  " ".intercalate ws

end StatScript.Text
