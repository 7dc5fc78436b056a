import StatScript.Console.Report

/-!
# The command line

With arguments the program carries them out as one script. Without, it reads commands from the
standard input until it ends or an exit is asked for.
-/

namespace StatScript.CommandLine

open Console

/-- Writes a report to both channels. -/
def printReport (report : Report) : IO Unit := do
  IO.print report.out
  IO.eprint report.err

/-- Ends the run where a count overflows. -/
def giveUp {α : Type} : IO α :=
  throw (IO.userError "attempt to add with overflow")

/-- What happens after a line of input. -/
inductive Next where
  | go (script : Script)
  | stop

/-- Carries out a command of the console itself. -/
def consoleCommand (script : Script) (command : String) : IO Next := do
  match command with
  | ":help" | ":h" =>
      printReport showHelp
      return .go script
  | ":show" | ":s" =>
      match showProgram? script with
      | some report =>
          printReport report
          return .go script
      | none => giveUp
  | ":reset" | ":r" =>
      IO.println (Colour.green.paint "✓ Script cleared")
      return .go (Script.new script.limits)
  | ":exit" | ":quit" | ":q" =>
      IO.println (Colour.cyan.paint "Goodbye!")
      return .stop
  | _ =>
      IO.println (Colour.red.paint ("Unknown command: " ++ command))
      return .go script

/-- Carries out a statement and prints the lines that it led to. -/
def statement (script : Script) (command : String) : IO Script := do
  let (result, script) := Console.run script command
  let (lines, script) := script.checkpoint
  match result with
  | .ok _ =>
      for line in lines do
        IO.println (Colour.blue.paintBold "=>" ++ " " ++ line.print)
  | .error error => IO.print (failureText error.message)
  return script

/-- Reads commands until there are no more. -/
partial def loop (input : IO.FS.Stream) (script : Script) : IO Unit := do
  let line ← input.getLine
  if line.isEmpty then
    IO.println (Colour.cyan.paint "Goodbye!")
  else
    let command := Text.trim line
    if command.isEmpty then loop input script
    else if Text.beginsWith ":" command then
      match ← consoleCommand script command with
      | .go script => loop input script
      | .stop => return ()
    else loop input (← statement script command)

/-- Greets and reads commands. -/
def interact (limits : Limits) : IO Unit := do
  let room := "  " ++ limits.changes.repr ++ " changes per kind, " ++ limits.conditionals.repr ++
    " conditionals per container"
  IO.print (textLines
    [Colour.cyan.paintBold "statc interactive REPL", Colour.darkGray.paint room,
      Colour.darkGray.paint "  Type :help for available commands", ""])
  loop (← IO.getStdin) (Script.new limits)

/-- Reports a failure to start or to run. -/
def fail (message : String) : IO UInt32 := do
  IO.eprintln ("Error: " ++ message)
  return 1

end StatScript.CommandLine

open StatScript StatScript.CommandLine in
/-- Reads the limits from the environment and carries out the arguments or the input. -/
def main (arguments : List String) : IO UInt32 := do
  let changes ← IO.getEnv Limits.changesKey
  let conditionals ← IO.getEnv Limits.conditionalsKey
  let lookup := fun key =>
    if key = Limits.changesKey then changes
    else if key = Limits.conditionalsKey then conditionals
    else none
  match Limits.ofLookup lookup with
  | .error error => fail error.message
  | .ok limits =>
      if arguments.isEmpty then
        interact limits
        return 0
      else
        match Console.runScript? limits (Text.unwords arguments) with
        | some (.ok report) =>
            printReport report
            return 0
        | some (.error error) => fail error.message
        | none => giveUp
