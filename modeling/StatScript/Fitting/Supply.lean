import StatScript.Fitting.Header

/-!
# Fresh names

Code that does not fit is moved into auxiliary containers, named after the container that it came
from with a number behind. Numbers start at one for each container and skip the names that are
taken. Placeholders are numbered through the whole program.
-/

namespace StatScript.Fitting

/-- What fresh names depend on: the names taken in the whole program, the next number to try for
the current container, and the number of the last placeholder. -/
structure Supply where
  taken : List String
  nextSuffix : Nat := 1
  placeholder : Nat
deriving DecidableEq, Repr

/-- The name of an auxiliary container. -/
def auxiliaryName (base : String) (suffix : Nat) : String :=
  base ++ " " ++ suffix.repr

/-- The first number from `suffix` on whose name is not taken. A name once found taken is not
looked at again, so the search ends. -/
def freshSuffix (base : String) (taken : List String) (suffix : Nat) : Nat :=
  if _h : auxiliaryName base suffix ∈ taken then
    freshSuffix base (taken.erase (auxiliaryName base suffix)) (suffix + 1)
  else suffix
termination_by taken.length
decreasing_by
  rw [List.length_erase_of_mem _h]
  exact Nat.sub_lt (List.length_pos_of_mem _h) Nat.one_pos

namespace Supply

/-- The supply of a program: the names of its containers are taken, and placeholders are numbered
on from its last one. -/
def ofProgram (names : List String) (lines : List Line) : Supply :=
  { taken := names, placeholder := lastPlaceholder lines }

/-- The supply at the start of the next container. -/
def restart (supply : Supply) : Supply :=
  { supply with nextSuffix := 1 }

/-- The next auxiliary name, which is taken from now on. -/
def nextName (supply : Supply) (base : String) : String × Supply :=
  let suffix := freshSuffix base supply.taken supply.nextSuffix
  let name := auxiliaryName base suffix
  (name, { supply with taken := name :: supply.taken, nextSuffix := suffix + 1 })

/-- The number of the next placeholder. It has no bound here: a program in which one does not fit
into 64 bits is given up as a whole (`fitProgram?`). -/
def nextPlaceholder (supply : Supply) : Nat × Supply :=
  (supply.placeholder + 1, { supply with placeholder := supply.placeholder + 1 })

end Supply

end StatScript.Fitting
