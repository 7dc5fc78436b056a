import StatScript.Line
import StatScript.Text.Blank
import StatScript.Text.Cut
import StatScript.Text.Numeral

/-!
# Headers, calls and placeholders

A named container starts with a header that gives its name, and a call runs it. The lines before
the first header have no name, so nothing can be moved out of them: where that would be needed a
comment with a number stands as a placeholder, and a second comment at the end of the container
says where the rest belongs.
-/

namespace StatScript.Fitting

/-! ## Containers -/

/-- What stands before the name in a header. -/
def headerLead : String := "goto function \""

/-- The header of a container. -/
def headerLine (name : String) : Line :=
  { text := headerLead ++ name ++ "\"", tag := .header }

/-- The name in a header, blanks around it aside. An empty name is none. -/
def headerName? (header : Line) : Option String :=
  match Text.between? headerLead "\"" (Text.trim header.text) with
  | some name => if name = "" then none else some name
  | none => none

/-- The call of a container. -/
def callLine (name : String) : Line :=
  { text := "function \"" ++ name ++ "\"", tag := .call }

/-! ## Placeholders -/

/-- What stands before the number in a placeholder. -/
def placeholderLead : String := "// function \"unnamed "

/-- The name that a placeholder gives to the code behind it. -/
def placeholderName (number : Nat) : String :=
  "unnamed " ++ number.repr

/-- The comment that stands where code has to be moved out. -/
def placeholderLine (number : Nat) : Line :=
  { text := "// function \"" ++ placeholderName number ++ "\"", tag := .comment }

/-- The comment at the end of the container that answers a placeholder. -/
def trailingLine (number : Nat) : Line :=
  { text := "// goto function \"" ++ placeholderName number ++ "\"", tag := .comment }

/-- The number in the text of a placeholder. -/
def placeholderNumber? (text : String) : Option Nat :=
  (Text.between? placeholderLead "\"" text).bind Text.count?

/-- Whether a line is a comment that begins like a placeholder. -/
def isPlaceholder (line : Line) : Bool :=
  line.tag = .comment && Text.beginsWith placeholderLead line.text

/-- The largest number of a placeholder, or zero. -/
def lastPlaceholder (lines : List Line) : Nat :=
  (lines.filterMap fun line => placeholderNumber? line.text).foldl max 0

/-! ## Fillers -/

/-- The line that opens a conditional which is always entered. -/
def fillerLine : Line :=
  { text := "if and () \x7b", tag := .openAll }

end StatScript.Fitting
