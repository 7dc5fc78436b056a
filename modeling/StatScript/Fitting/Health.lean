import StatScript.Line
import StatScript.Text.Blank

/-!
# Maximal health

The target sets the maximal health and heals in one line, whose last word says whether it heals.
Before a program is fitted, each line that sets the maximal health without that word gets it, and a
full heal directly behind is taken up into it.
-/

namespace StatScript.Fitting

/-- The word that sets the maximal health. -/
def maxHealth : String := "maxHealth"

/-- The line that heals in full. -/
def fullHeal : String := "fullHeal"

/-- The amount of a line that sets the maximal health and does not say whether it heals. -/
def unflaggedAmount? (text : String) : Option String :=
  match Text.words text with
  | [word, amount] => if word = maxHealth then some amount else none
  | _ => none

/-- Whether a line heals in full. -/
def heals (line : Line) : Bool :=
  Text.trim line.text = fullHeal

/-- The line that sets the maximal health and says whether it heals. -/
def flagged (line : Line) (amount : String) (heal : Bool) : Line :=
  { line with text := maxHealth ++ " " ++ amount ++ (if heal then " true" else " false") }

/-- Gives every line that sets the maximal health its last word. -/
def fuseHealth : List Line → List Line
  | [] => []
  | [line] =>
      match unflaggedAmount? line.text with
      | none => [line]
      | some amount => [flagged line amount false]
  | line :: next :: rest =>
      match unflaggedAmount? line.text with
      | none => line :: fuseHealth (next :: rest)
      | some amount =>
          if heals next then flagged line amount true :: fuseHealth rest
          else flagged line amount false :: fuseHealth (next :: rest)

end StatScript.Fitting
