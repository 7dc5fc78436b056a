import StatScript.Fitting.Body
import StatScript.Fitting.Health
import StatScript.Fitting.Segment

/-!
# Fitting a program

Each container is fitted, and behind it stand the auxiliary containers that were cut from it, which
are fitted in turn. Lines moved out are never as many as those they were moved from, so this ends.
-/

namespace StatScript.Fitting

/-! ## Results -/

/-- A notice that code in a container without a name has to be moved by hand. -/
structure Warning where
  placeholder : Nat
deriving DecidableEq, Repr

/-- The message of a warning. -/
def Warning.message (warning : Warning) : String :=
  "capacity exceeded in an unnamed container; move the code after placeholder `" ++
    placeholderName warning.placeholder ++ "` into its own function"

/-- Fitted lines, with the auxiliary containers, placeholders and fillers in them, in order. -/
@[ext]
structure Outcome where
  lines : List Line := []
  auxiliary : List String := []
  placeholders : List Nat := []
  fillers : Nat := 0
deriving DecidableEq, Repr

/-- One warning for each placeholder. -/
def Outcome.warnings (outcome : Outcome) : List Warning :=
  outcome.placeholders.map Warning.mk

/-- Whether the numbers of all placeholders fit into the 64 bits of their count. -/
def Outcome.isCounted (outcome : Outcome) : Bool :=
  outcome.placeholders.all (· < UInt64.size)

instance : Append Outcome where
  append first second :=
    { lines := first.lines ++ second.lines
      auxiliary := first.auxiliary ++ second.auxiliary
      placeholders := first.placeholders ++ second.placeholders
      fillers := first.fillers + second.fillers }

namespace Outcome

variable (first second third : Outcome)

@[simp]
theorem lines_append : (first ++ second).lines = first.lines ++ second.lines :=
  rfl

@[simp]
theorem auxiliary_append : (first ++ second).auxiliary = first.auxiliary ++ second.auxiliary :=
  rfl

@[simp]
theorem placeholders_append : (first ++ second).placeholders = first.placeholders ++ second.placeholders :=
  rfl

@[simp]
theorem fillers_append : (first ++ second).fillers = first.fillers + second.fillers :=
  rfl

theorem append_assoc : first ++ second ++ third = first ++ (second ++ third) :=
  Outcome.ext (List.append_assoc ..) (List.append_assoc ..) (List.append_assoc ..) (Nat.add_assoc ..)

@[simp]
theorem append_empty : first ++ ({} : Outcome) = first :=
  Outcome.ext (List.append_nil _) (List.append_nil _) (List.append_nil _) (Nat.add_zero _)

@[simp]
theorem empty_append : ({} : Outcome) ++ first = first :=
  Outcome.ext rfl rfl rfl (Nat.zero_add _)

end Outcome

/-! ## Containers -/

/-- The number of lines moved. -/
def movedLines : List Relocation → Nat
  | [] => 0
  | relocation :: rest => relocation.body.length + movedLines rest

@[simp]
theorem movedLines_append (first second : List Relocation) :
    movedLines (first ++ second) = movedLines first + movedLines second := by
  induction first with
  | nil => simp [movedLines]
  | cons relocation rest ih => simp only [List.cons_append, movedLines, ih, Nat.add_assoc]

/-- A fitted body with the comments that answer its placeholders. -/
def Fitted.outcome (fitted : Fitted) : Outcome :=
  { lines := fitted.lines ++ fitted.placeholders.map trailingLine
    placeholders := fitted.placeholders
    fillers := fitted.fillers }

/-- The header of an auxiliary container. -/
def Relocation.outcome (relocation : Relocation) : Outcome :=
  { lines := [headerLine relocation.name], auxiliary := [relocation.name] }

/-- Fits the auxiliary containers still to be written, those cut from the first behind all others.
A body that would be moved as a whole is written as it is; no limit of at least one leads there. -/
def relocate (limits : Limits) (base : Option String) (supply : Supply) :
    List Relocation → Outcome × Supply
  | [] => ({}, supply)
  | relocation :: rest =>
      let fitted := fit limits base {} supply relocation.body
      if movedLines fitted.moved < relocation.body.length then
        let (outcome, supply) := relocate limits base fitted.supply (rest ++ fitted.moved)
        (relocation.outcome ++ fitted.outcome ++ outcome, supply)
      else
        let (outcome, supply) := relocate limits base supply rest
        (relocation.outcome ++ { lines := relocation.body } ++ outcome, supply)
termination_by pending => (movedLines pending, pending.length)
decreasing_by
  · rename_i h
    apply Prod.Lex.left
    simp only [fitted, movedLines_append, movedLines] at h ⊢
    omega
  · simp only [movedLines, List.length_cons]
    rcases Nat.eq_zero_or_pos relocation.body.length with h | h
    · rw [h, Nat.zero_add]
      exact Prod.Lex.right _ (Nat.lt_succ_self _)
    · exact Prod.Lex.left _ _ (Nat.lt_add_of_pos_left h)

/-- Fits a container and the auxiliary containers cut from it. -/
def fitSegment (limits : Limits) (supply : Supply) (segment : Segment) : Outcome × Supply :=
  let fitted := fit limits segment.name {} supply.restart segment.body
  let (moved, supply) := relocate limits segment.name fitted.supply fitted.moved
  ({ lines := segment.header.toList } ++ fitted.outcome ++ moved, supply)

/-- Fits containers one after another. -/
def fitSegments (limits : Limits) (supply : Supply) : List Segment → Outcome
  | [] => {}
  | segment :: rest =>
      let (outcome, supply) := fitSegment limits supply segment
      outcome ++ fitSegments limits supply rest

/-! ## Programs -/

/-- Fits a program whose containers are named as `naming` says, or reports what is wrong with its
structure. Indices count lines after the maximal health is fused. -/
def fitProgramWith (naming : Line → Option String) (limits : Limits) (lines : List Line) :
    Except StructureError Outcome := do
  let fused := fuseHealth lines
  check fused
  let containers := segments naming fused
  let supply := Supply.ofProgram (containers.filterMap Segment.name) fused
  let outcome := fitSegments limits supply containers
  return { outcome with lines := Line.reindent outcome.lines }

/-- Fits a program whose containers are named by their headers. -/
def fitProgram (limits : Limits) (lines : List Line) : Except StructureError Outcome :=
  fitProgramWith headerName? limits lines

/-! ## Overflow -/

/-- The result of fitting, or none where the count of placeholders has overflowed. A program that
is refused has counted nothing. -/
def counted? : Except StructureError Outcome → Option (Except StructureError Outcome)
  | .ok outcome => if outcome.isCounted then some (.ok outcome) else none
  | .error error => some (.error error)

section Counted

variable {result : Except StructureError Outcome} {outcome : Outcome} {error : StructureError}

@[simp]
theorem counted?_eq_ok_iff : counted? result = some (.ok outcome) ↔ result = .ok outcome ∧ outcome.isCounted := by
  cases result with
  | error other => exact iff_of_false nofun nofun
  | ok fitted =>
      rw [counted?]
      split
      · next counted => exact ⟨by rintro ⟨⟩; exact ⟨rfl, counted⟩, by rintro ⟨⟨⟩, -⟩; rfl⟩
      · next overflows => exact iff_of_false nofun (by rintro ⟨⟨⟩, counted⟩; exact overflows counted)

@[simp]
theorem counted?_eq_error_iff : counted? result = some (.error error) ↔ result = .error error := by
  cases result with
  | error other => simp only [counted?, Option.some.injEq]
  | ok fitted =>
      rw [counted?]
      split
      · exact iff_of_false nofun nofun
      · exact iff_of_false nofun nofun

end Counted

/-- Fits a program whose containers are named as `naming` says, unless the count of placeholders
overflows. -/
def fitProgramWith? (naming : Line → Option String) (limits : Limits) (lines : List Line) :
    Option (Except StructureError Outcome) :=
  counted? (fitProgramWith naming limits lines)

/-- Fits a program whose containers are named by their headers, unless the count of placeholders
overflows. -/
def fitProgram? (limits : Limits) (lines : List Line) : Option (Except StructureError Outcome) :=
  fitProgramWith? headerName? limits lines

end StatScript.Fitting
