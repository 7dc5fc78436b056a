import StatScript.Console.Style
import StatScript.Double.Reader
import StatScript.Text.Blank
import StatScript.Text.Cut

/-!
# Highlighting

The words of a line of input are found by their byte offsets, and each gets a style by what it is. The
line is cut at these offsets, so that the segments put together are the line, and none is empty.
-/

namespace StatScript.Console

/-- A piece of a line with its style. -/
structure Segment where
  style : Style
  text : String
deriving DecidableEq, Repr

/-! ## Words -/

/-- The words from a byte offset on, each with the offset at which it starts. `begun?` is the offset at
which the word before the offset has begun, if there is one. -/
def wordsFrom? (line : String) (offset : Nat) (begun? : Option Nat) :
    List Char → Option (List (Nat × String))
  | [] =>
      match begun? with
      | some start => do
          let word ← Text.slice? line start line.utf8ByteSize
          return [(start, word)]
      | none => some []
  | c :: cs =>
      match Text.isBlank c, begun? with
      | true, some start => do
          let word ← Text.slice? line start offset
          let behind ← wordsFrom? line (offset + c.utf8Size) none cs
          return (start, word) :: behind
      | false, none => wordsFrom? line (offset + c.utf8Size) (some offset) cs
      | _, _ => wordsFrom? line (offset + c.utf8Size) begun? cs

/-- The words of a line, each with the byte offset at which it starts. There are none if a cut falls
inside a character. -/
def wordsAt? (line : String) : Option (List (Nat × String)) :=
  wordsFrom? line 0 none line.toList

/-! ## Styles -/

/-- The words that begin or join statements. -/
def keywords : List String :=
  ["if", "and", "or", "else", "end", "goto", "call", "exit", "cancel", "sign", "abs", "fullheal",
    "maxhealth", "note"]

/-- The words that assign. -/
def assignments : List String :=
  ["=", "+=", "-=", "*=", "/=", "%="]

/-- The words that calculate or compare. -/
def operators : List String :=
  ["+", "-", "*", "/", "//", "%", "**", "==", "!=", "<", "<=", ">", ">="]

/-- The style of a word, by the first rule that fits. -/
def styleOf (word : String) : Style :=
  if word ∈ keywords then Colour.magenta.boldStyle
  else if word ∈ assignments then Colour.red.boldStyle
  else if word ∈ operators then Colour.red.style
  else if Text.beginsWith ":" word then Colour.green.style
  else if ["p:", "g:", "t:"].any fun lead => Text.beginsWith lead word then Colour.cyan.style
  else if Text.beginsWith "%" word then Colour.blue.style
  else if Text.beginsWith "'" word then Colour.green.style
  else if (Double.ofText? word).isSome then Colour.yellow.style
  else {}

/-! ## Lines -/

/-- Whether a line is a comment: two slashes are the first thing on it. -/
def isCommentLine (line : String) : Bool :=
  (Text.after? ['/', '/'] (Text.dropStart Text.isBlank line.toList)).isSome

/-- The segment between two words, or at an end of the line, unless it is empty. -/
def gap? (line : String) (start stop : Nat) : Option (List Segment) :=
  if start < stop then do
    let text ← Text.slice? line start stop
    return [{ style := {}, text }]
  else some []

/-- The segments from a byte offset on, where `words` are the words from there on. -/
def segmentsFrom? (line : String) (offset : Nat) : (words : List (Nat × String)) → Option (List Segment)
  | [] => gap? line offset line.utf8ByteSize
  | (start, word) :: rest => do
      let gap ← gap? line offset start
      let behind ← segmentsFrom? line (start + word.utf8ByteSize) rest
      return gap ++ { style := styleOf word, text := word } :: behind

/-- The segments of a line, unless a cut falls inside a character. A comment is a single one. -/
def highlight? (line : String) : Option (List Segment) :=
  if isCommentLine line then some [{ style := Colour.darkGray.style, text := line }]
  else do
    let words ← wordsAt? line
    segmentsFrom? line 0 words

/-- The segments of a line. No cut falls inside a character, so there always are some for a line that
is not empty. -/
def highlight (line : String) : List Segment :=
  (highlight? line).getD []

end StatScript.Console
