import StatScript.Console.Command
import StatScript.Console.Style

/-!
# Reports

What the console prints: the program that a script makes, the warnings about it, and the help. A
report keeps apart what goes to the standard output and what goes to the standard error.
-/

namespace StatScript.Console

/-- Printed text, by the channel that it goes to. -/
structure Report where
  out : String := ""
  err : String := ""
deriving DecidableEq, Repr

/-- Lines of text, each ended. -/
def textLines (lines : List String) : String :=
  String.join (lines.map (· ++ "\n"))

/-! ## Programs -/

/-- The warnings about a program. -/
def warningText (outcome : Fitting.Outcome) : String :=
  textLines (outcome.warnings.map fun warning =>
    Colour.yellow.paintBold "warning:" ++ " " ++ Colour.yellow.paint warning.message)

/-- A failure. -/
def failureText (message : String) : String :=
  textLines [Colour.red.paintBold "✗" ++ " " ++ Colour.red.paint message]

/-- A program and the warnings about it. -/
def programReport (outcome : Fitting.Outcome) : Report :=
  { out := Line.printAll outcome.lines, err := warningText outcome }

/-- Carries out a whole script, its commands parted by semicolons, and prints its program. Nothing
is printed if a command fails. There is no result if the count of placeholders overflows. -/
def runScript? (limits : Limits) (text : String) : Option (Except CommandError Report) :=
  match (executeAll (parts ';' text)).run (Script.new limits) with
  | (.error error, _) => some (.error error)
  | (.ok _, script) =>
      script.finish?.map fun finished =>
        (finished.mapError CommandError.structural).map programReport

/-- How many fillers and auxiliary containers a program needed. -/
def summaryText (outcome : Fitting.Outcome) : String :=
  "  " ++ outcome.fillers.repr ++ " filler conditional(s), " ++
    outcome.auxiliary.length.repr ++ " auxiliary container(s)"

/-- What is shown of a program that was fitted, or why it could not be. -/
def shownReport : Except StructureError Fitting.Outcome → Report
  | .ok outcome =>
      { out := "\n" ++ Line.printAll outcome.lines ++
          textLines ["", Colour.darkGray.paint (summaryText outcome)]
        err := warningText outcome }
  | .error error => { out := failureText error.message }

/-- The program so far, fitted, with a summary; the script stays open. There is nothing to show if
the count of placeholders overflows. -/
def showProgram? (script : Script) : Option Report :=
  (Fitting.fitProgram? script.limits script.lines).map shownReport

/-! ## Help -/

/-- A console command and what it does. -/
def helpEntry (command effect : String) : String :=
  "  " ++ Colour.green.paint command ++ "  " ++ effect

/-- A point about statements. -/
def helpPoint (text : String) : String :=
  "  " ++ Colour.yellow.paint "•" ++ " " ++ text

/-- An example of statements. -/
def helpExample (text : String) : String :=
  "    " ++ Colour.darkGray.paint "Example:" ++ "    " ++ text

/-- The help. -/
def showHelp : Report :=
  { out := textLines
      [ "",
        Colour.cyan.paintBold "REPL commands",
        helpEntry ":help, :h" "Show this help message",
        helpEntry ":show, :s" "Print the block-limit-fixed program",
        helpEntry ":reset, :r" "Start a new script",
        helpEntry ":exit, :quit, :q" "Exit the REPL",
        "",
        Colour.cyan.paintBold "Statements",
        helpPoint "Slots: p:name, g:name, t:team:name",
        helpPoint "Values: 42, 2.5, 'text', %placeholder%, or a slot",
        helpExample "p:x = p:a * 3",
        helpExample "p:x = p:a ** 5",
        helpExample "g:r = p:a % 7",
        helpExample "p:s = sign p:a      p:m = abs p:a",
        helpExample "p:x += 1      p:x %= p:d",
        helpPoint "Control flow",
        helpExample "if and p:x > 3, g:r == 0",
        helpExample "else / end / goto tick / call reward",
        helpPoint "Actions: exit, cancel, fullheal, maxhealth 40, // comment",
        helpExample "note 'score' p:x",
        "" ] }

end StatScript.Console
