import StatScript.Text.Blank
import StatScript.Text.Numeral

/-!
# Limits

How much the target takes in one container: a number of changes of each kind, outside conditionals
and in each of their bodies, and a number of conditionals. The environment may set both.
-/

namespace StatScript

/-- The room of a container. -/
structure Limits where
  changes : Nat := 10
  conditionals : Nat := 15
deriving DecidableEq, Repr

/-- A limit in the environment that is not a positive count, with its name and its text. -/
structure LimitError where
  key : String
  value : String
deriving DecidableEq, Repr

/-- The message of a limit error. -/
def LimitError.message (error : LimitError) : String :=
  "`" ++ error.key ++ "` must be a positive integer, got `" ++ error.value ++ "`"

namespace Limits

/-- The variable that sets the limit on changes. -/
def changesKey : String := "STATC_CHANGE_LIMIT"

/-- The variable that sets the limit on conditionals. -/
def conditionalsKey : String := "STATC_CONDITIONAL_LIMIT"

/-- Reads a limit, blanks around it aside. -/
def parse (key value : String) : Except LimitError Nat :=
  match Text.count? (Text.trim value) with
  | some (n + 1) => .ok (n + 1)
  | _ => .error { key, value }

/-- The limit that a variable sets, or the default if it is not set. -/
def resolve (lookup : String → Option String) (key : String) (default : Nat) :
    Except LimitError Nat :=
  match lookup key with
  | some value => parse key value
  | none => .ok default

/-- The limits of an environment. The limit on changes is read first. -/
def ofLookup (lookup : String → Option String) : Except LimitError Limits := do
  let changes ← resolve lookup changesKey ({} : Limits).changes
  let conditionals ← resolve lookup conditionalsKey ({} : Limits).conditionals
  return { changes, conditionals }

end Limits

end StatScript
