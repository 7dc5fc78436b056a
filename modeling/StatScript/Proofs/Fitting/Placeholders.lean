import Mathlib.Data.List.Fold
import Mathlib.Data.List.MinMax
import StatScript.Proofs.Fitting.Counting
import StatScript.Proofs.Fitting.Resumption

/-!
# The numbers of placeholders

The count of placeholders starts at the largest number that the program has already, so a written placeholder is
known in the result by its number alone.

Results:
1. `Course.filter_fresh`: the placeholders found in a fitted body are those that were written.
2. `Course.marked`, `Family.marked`, `Groups.marked`: so each container holds its own, and ends with the comments
   that answer them.
3. `fitProgram_placeholders`: placeholders, the comments that answer them and warnings are numbered on from the
   last placeholder of the program, without gap or repetition.
-/

namespace StatScript.Fitting

/-! ## Container by container -/

/-- The numbers of the placeholders in auxiliary containers, container by container. -/
def memberNumbers (members : List Member) : List (List Nat) :=
  members.map fun member => member.fitted.placeholders

/-- The numbers of the placeholders in the containers of a group, container by container. -/
def Group.numbers (group : Group) : List (List Nat) :=
  group.fitted.placeholders :: memberNumbers group.members

/-- The numbers of the placeholders in the containers of groups, container by container. -/
def numbersOf (groups : List Group) : List (List Nat) :=
  groups.flatMap Group.numbers

@[simp]
theorem Outcome.placeholders_join (outcomes : List Outcome) :
    (Outcome.join outcomes).placeholders = outcomes.flatMap Outcome.placeholders := by
  induction outcomes with
  | nil => rfl
  | cons first rest ih => simp [join, ih]

@[simp]
theorem Group.placeholders_outcome (group : Group) :
    group.outcome.placeholders = group.numbers.flatten := by
  have member (member : Member) : member.outcome.placeholders = member.fitted.placeholders := rfl
  simp [outcome, Fitted.outcome, numbers, memberNumbers, Function.comp_def, member, List.flatMap_def]

theorem placeholders_groups (groups : List Group) :
    (Outcome.join (groups.map Group.outcome)).placeholders = (numbersOf groups).flatten := by
  simp [numbersOf, List.flatMap_def, List.flatten_flatten, Function.comp_def]

/-! ## Reading placeholders back -/

theorem count?_repr {number : Nat} (small : number < UInt64.size) : Text.count? number.repr = some number := by
  have digits := Text.digits?_repr number
  unfold Text.count?
  split
  · next rest text =>
      have plus : '+' ∈ number.repr.toList := by rw [text]; exact List.mem_cons_self
      exact absurd (Text.isDigit_of_mem_repr plus) (by decide)
  · simp only [digits, Option.bind_eq_bind, Option.bind_some, if_pos small]

theorem placeholderNumber?_placeholderLine {number : Nat} (small : number < UInt64.size) :
    placeholderNumber? (placeholderLine number).text = some number := by
  rw [placeholderNumber?, placeholderLine_text, ← String.append_assoc, Text.between?_append,
    Option.bind_some, count?_repr small]

/-- Whether the text of a line is that of a placeholder with a number beyond `last`. -/
def isFresh (last : Nat) (line : Line) : Bool :=
  (placeholderNumber? line.text).any (last < ·)

section Fresh

variable {last : Nat} {line : Line} {lines : List Line}

theorem isFresh_placeholderLine {number : Nat} (beyond : last < number) (small : number < UInt64.size) :
    isFresh last (placeholderLine number) := by
  rw [isFresh, placeholderNumber?_placeholderLine small]
  exact decide_eq_true beyond

/-- No line that does not begin like a placeholder is one. -/
theorem isFresh_eq_false (other : Text.beginsWith placeholderLead line.text = false) :
    isFresh last line = false := by
  have none : Text.after? placeholderLead.toList line.text.toList = none :=
    Option.isSome_eq_false_iff.trans Option.isNone_iff_eq_none |>.mp other
  rw [isFresh, placeholderNumber?, Text.between?, none]
  rfl

theorem isFresh_callLine (name : String) : isFresh last (callLine name) = false := by
  refine isFresh_eq_false ?_
  rw [callLine, Text.beginsWith, String.append_assoc, String.toList_append]
  rfl

theorem isFresh_headerLine (name : String) : isFresh last (headerLine name) = false := by
  refine isFresh_eq_false ?_
  rw [headerLine, headerLead, Text.beginsWith, String.append_assoc, String.toList_append]
  rfl

theorem isFresh_trailingLine (number : Nat) : isFresh last (trailingLine number) = false :=
  isFresh_eq_false (isPlaceholder_trailingLine number)

theorem filter_old (old : isFresh last line = false) (rest : List Line) :
    (line :: rest).filter (isFresh last) = rest.filter (isFresh last) :=
  List.filter_cons_of_neg (by rw [old]; exact nofun)

theorem filter_new {number : Nat} (new : last < number ∧ number < UInt64.size) (rest : List Line) :
    (placeholderLine number :: rest).filter (isFresh last) =
      placeholderLine number :: rest.filter (isFresh last) :=
  List.filter_cons_of_pos (isFresh_placeholderLine new.1 new.2)

/-- No placeholder of a program is beyond the last one. -/
theorem isFresh_lastPlaceholder (member : line ∈ lines) : isFresh (lastPlaceholder lines) line = false := by
  cases read : placeholderNumber? line.text with
  | none => rw [isFresh, read]; rfl
  | some number =>
      have listed : number ∈ lines.filterMap fun line => placeholderNumber? line.text :=
        List.mem_filterMap.mpr ⟨line, member, read⟩
      have le : number ≤ lastPlaceholder lines := by
        rw [lastPlaceholder, List.foldl_eq_foldr]
        exact List.le_max_of_le' 0 listed (Nat.le_refl number)
      rw [isFresh, read]
      exact decide_eq_false (Nat.not_lt.mpr le)

end Fresh

/-! ## Containers -/

section Containers

variable {limits : Limits} {base : Option String} {position : Position} {room : Room}
  {supply behind : Supply} {lines source : List Line} {fitted : Fitted} {last : Nat}

/-- The placeholders found in a fitted body are those that were written. -/
theorem Course.filter_fresh (course : Course limits base position room supply lines fitted)
    (old : ∀ line ∈ lines, isFresh last line = false)
    (new : ∀ number ∈ fitted.placeholders, last < number ∧ number < UInt64.size) :
    fitted.lines.filter (isFresh last) = fitted.placeholders.map placeholderLine := by
  induction course with
  | done _ => rfl
  | endFiller _ _ ih => exact (filter_old rfl _).trans (ih old new)
  | plain _ _ _ _ _ ih | turn _ _ _ _ _ _ _ _ _ ih =>
      obtain ⟨first, rest⟩ := List.forall_mem_cons.mp old
      exact (filter_old first _).trans (ih rest new)
  | fill _ _ _ _ _ ih =>
      obtain ⟨first, rest⟩ := List.forall_mem_cons.mp old
      exact (filter_old rfl _).trans ((filter_old first _).trans (ih rest new))
  | moveRest _ _ _ _ => exact filter_old (isFresh_callLine _) []
  | moveBody _ _ _ _ _ _ ih =>
      refine (filter_old (isFresh_callLine _) _).trans (ih (fun line member => ?_) new)
      exact (List.forall_mem_cons.mp old).2 line ((List.dropWhile_sublist _).subset member)
  | markRest _ _ _ _ _ _ _ ih | markBody _ _ _ _ _ _ _ ih =>
      obtain ⟨first, rest⟩ := List.forall_mem_cons.mp old
      obtain ⟨number, numbers⟩ := List.forall_mem_cons.mp new
      exact (filter_new number _).trans
        (congrArg (_ :: ·) ((filter_old first _).trans (ih rest numbers)))

/-- The container holds new placeholders with just these numbers, ends with the comments that answer them, and
has none if it has a name. -/
structure Segment.Marked (last : Nat) (segment : Segment) (numbers : List Nat) : Prop where
  placeholders : segment.body.filter (isFresh last) = numbers.map placeholderLine
  trailing : ∃ body, segment.body = body ++ numbers.map trailingLine
  anonymous : segment.name ≠ none → numbers = []

theorem Course.marked (course : Course limits base .outside {} supply lines fitted)
    (old : ∀ line ∈ lines, isFresh last line = false)
    (new : ∀ number ∈ fitted.placeholders, last < number ∧ number < UInt64.size) {segment : Segment}
    (body : segment.body = fitted.outcome.lines) (named : segment.name ≠ none → base ≠ none) :
    segment.Marked last fitted.placeholders where
  placeholders := by
    have trailing : (fitted.placeholders.map trailingLine).filter (isFresh last) = [] := by
      rw [List.filter_eq_nil_iff, List.forall_mem_map]
      intro number _ fresh
      rw [isFresh_trailingLine] at fresh
      cases fresh
    rw [body, Fitted.outcome, List.filter_append, course.filter_fresh old new, trailing, List.append_nil]
  trailing := ⟨fitted.lines, body⟩
  anonymous := fun name => course.placeholders_eq_nil (named name)

theorem Family.marked {pending : List Relocation} {members : List Member}
    (family : Family limits base supply pending members behind) (headless : Headless source)
    (movable : ∀ queued ∈ pending, queued.Movable source) (named : pending ≠ [] → base ≠ none)
    (old : ∀ line ∈ source, isFresh last line = false)
    (new : ∀ number ∈ (memberNumbers members).flatten, last < number ∧ number < UInt64.size) :
    List.Forall₂ (Segment.Marked last) (members.map Member.segment) (memberNumbers members) := by
  induction family with
  | nil => exact .nil
  | @cons supply behind relocation rest fitted members fits family ih =>
      have base_named : base ≠ none := named (List.cons_ne_nil _ _)
      obtain ⟨first, others⟩ := List.forall_mem_append.mp new
      have movable' := movable relocation List.mem_cons_self
      subst fits
      refine .cons ?_ (ih (movable_queue headless movable) (fun _ => base_named) others)
      exact (movable'.course headless limits base supply).marked
        (fun line member => old line (movable'.subset member)) first rfl fun _ => base_named

theorem Groups.marked {containers : List Segment} {groups : List Group}
    (fitted : Groups limits supply containers groups) (sound : ∀ segment ∈ containers, segment.Sound)
    (within : ∀ segment ∈ containers, segment.body ⊆ source)
    (old : ∀ line ∈ source, isFresh last line = false)
    (new : ∀ number ∈ (numbersOf groups).flatten, last < number ∧ number < UInt64.size) :
    List.Forall₂ (Segment.Marked last) (containersOf groups) (numbersOf groups) := by
  induction fitted with
  | nil => exact .nil
  | @cons supply behind segment fitted members rest groups fits family further ih =>
      obtain ⟨⟨headless, nested⟩, others⟩ := List.forall_mem_cons.mp sound
      obtain ⟨subset, subsets⟩ := List.forall_mem_cons.mp within
      have course := Segment.Sound.course ⟨headless, nested⟩ fits
      rw [numbersOf, List.flatMap_cons, List.flatten_append, Group.numbers, List.flatten_cons] at new
      obtain ⟨own, later⟩ := List.forall_mem_append.mp new
      obtain ⟨first, rest⟩ := List.forall_mem_append.mp own
      have named : fitted.moved ≠ [] → segment.name ≠ none := by
        intro moved anonymous
        rw [anonymous] at course
        exact moved course.moved_eq_nil
      have old' : ∀ line ∈ segment.body, isFresh last line = false :=
        fun line member => old line (subset member)
      rw [containersOf, List.flatMap_cons, numbersOf, List.flatMap_cons]
      refine List.rel_append (.cons ?_ ?_) (ih others subsets later)
      · exact course.marked old' first rfl id
      · exact family.marked headless course.moved named old' rest

theorem filter_marked {containers : List Segment} {numbers : List (List Nat)}
    (marked : List.Forall₂ (Segment.Marked last) containers numbers)
    (headers : ∀ container ∈ containers, ∀ header, container.header = some header →
      isFresh last header = false) :
    (containers.flatMap Segment.lines).filter (isFresh last) = numbers.flatten.map placeholderLine := by
  induction marked with
  | nil => rfl
  | @cons container own containers numbers first others ih =>
      obtain ⟨header, headers'⟩ := List.forall_mem_cons.mp headers
      have head : container.header.toList.filter (isFresh last) = [] := by
        cases found : container.header with
        | none => rfl
        | some line => exact filter_old (header line found) []
      rw [List.flatMap_cons, List.filter_append, ih headers', Segment.lines, List.filter_append, head,
        List.nil_append, first.placeholders, List.flatten_cons, List.map_append]

end Containers

/-! ## Programs -/

section Programs

variable {last : Nat}

theorem filter_bare (lines : List Line) :
    (lines.map Line.bare).filter (isFresh last) = (lines.filter (isFresh last)).map Line.bare :=
  List.filter_map

theorem Segment.Marked.bare {segment : Segment} {numbers : List Nat} (marked : segment.Marked last numbers) :
    segment.bare.Marked last numbers where
  placeholders := by
    rw [Segment.bare, filter_bare, marked.placeholders, List.map_map]
    rfl
  trailing := by
    obtain ⟨body, body_eq⟩ := marked.trailing
    refine ⟨body.map Line.bare, ?_⟩
    rw [Segment.bare, body_eq, List.map_append, List.map_map]
    rfl
  anonymous := marked.anonymous

end Programs

/-- The placeholders that fitting writes are numbered on from the last one of the program through all containers,
each container without a name ends with the comments that answer its own, and there is one warning for each. -/
theorem fitProgram_placeholders {limits : Limits} {lines : List Line} {outcome : Outcome}
    (conditionals : 1 ≤ limits.conditionals) (fits : fitProgram limits lines = .ok outcome)
    (small : lastPlaceholder (fuseHealth lines) + outcome.warnings.length < UInt64.size) :
    ∃ numbers : List (List Nat),
      numbers.flatten = List.range' (lastPlaceholder (fuseHealth lines) + 1) outcome.warnings.length ∧
      List.Forall₂ (Segment.Marked (lastPlaceholder (fuseHealth lines))) (containers outcome.lines) numbers ∧
      (outcome.lines.filter (isFresh (lastPlaceholder (fuseHealth lines)))).map Line.bare =
        numbers.flatten.map placeholderLine ∧
      outcome.warnings = numbers.flatten.map Warning.mk ∧
      ∀ line ∈ fuseHealth lines, isFresh (lastPlaceholder (fuseHealth lines)) line = false := by
  obtain ⟨nested, rfl⟩ := fitProgram_eq_ok.mp fits
  obtain ⟨groups, fitted, written, cutAgain⟩ := exists_program conditionals nested
  have sound : ∀ segment ∈ segments headerName? (fuseHealth lines), segment.Sound := segments_sound nested
  have placeholders : (fitContainers limits (fuseHealth lines)).reindent.placeholders = (numbersOf groups).flatten :=
    (congrArg Outcome.placeholders written).trans (placeholders_groups groups)
  have warnings : (fitContainers limits (fuseHealth lines)).reindent.warnings =
      (numbersOf groups).flatten.map Warning.mk := congrArg (List.map Warning.mk) placeholders
  have consecutive : (numbersOf groups).flatten = List.range' (lastPlaceholder (fuseHealth lines) + 1)
      (fitContainers limits (fuseHealth lines)).reindent.warnings.length :=
    placeholders.symm.trans (placeholders_fitProgram fits)
  have new : ∀ number ∈ (numbersOf groups).flatten,
      lastPlaceholder (fuseHealth lines) < number ∧ number < UInt64.size := by
    intro number member
    rw [consecutive, List.mem_range'_1] at member
    omega
  have old : ∀ line ∈ fuseHealth lines, isFresh (lastPlaceholder (fuseHealth lines)) line = false :=
    fun line member => isFresh_lastPlaceholder member
  have marked := fitted.marked sound (fun _ listed => segments_subset listed) old new
  refine ⟨numbersOf groups, consecutive, ?_, ?_, warnings, old⟩
  · rw [Outcome.reindent, containers_reindent, containers_eq, cutAgain, List.forall₂_map_left_iff]
    exact marked.imp fun _ _ marked => marked.bare
  · have headers : ∀ container ∈ containersOf groups, ∀ header, container.header = some header →
        isFresh (lastPlaceholder (fuseHealth lines)) header = false := by
      intro container listed header headed
      rcases fitted.headers listed headed with ⟨segment, listed, headed⟩ | ⟨name, rfl⟩
      · exact old header (mem_segments.mpr ⟨segment, listed, .inl headed⟩)
      · exact isFresh_headerLine name
    rw [← filter_bare, Outcome.reindent, Line.reindent, bare_reindentFrom, filter_bare, written, lines_groups,
      filter_marked marked headers, List.map_map]
    rfl

/-- Two containers without a name, both with too many changes, and a placeholder in the second. -/
def wayside : List Line :=
  steps ++ headerLine "" :: placeholderLine 4 :: steps
where
  steps : List Line := [change "a", change "b", change "c"]
  change (text : String) : Line := { text, tag := .change .player }

theorem warnings_wayside : (fitContainers ⟨1, 1⟩ wayside).reindent.warnings = [⟨5⟩, ⟨6⟩] := by
  have supply : programSupply wayside = ⟨[], 1, 4⟩ := rfl
  have split : segments headerName? wayside =
      [⟨none, none, wayside.steps⟩, ⟨some (headerLine ""), none, placeholderLine 4 :: wayside.steps⟩] := rfl
  obtain ⟨lines, first⟩ : ∃ lines, fit ⟨1, 1⟩ none {} ⟨[], 1, 4⟩ wayside.steps =
      { lines, placeholders := [5], fillers := 1, supply := ⟨[], 1, 5⟩ } := ⟨_, by cbv⟩
  obtain ⟨lines', second⟩ : ∃ lines, fit ⟨1, 1⟩ none {} ⟨[], 1, 5⟩ (placeholderLine 4 :: wayside.steps) =
      { lines, placeholders := [6], fillers := 1, supply := ⟨[], 1, 6⟩ } := ⟨_, by cbv⟩
  simp only [fitContainers, supply, split, fitSegments, fitSegment, Supply.restart, first, second, relocate]
  rfl

theorem fitProgram_placeholders_wayside :
    ∃ outcome numbers, fitProgram ⟨1, 1⟩ wayside = .ok outcome ∧
      numbers.flatten = [5, 6] ∧ List.Forall₂ (Segment.Marked 4) (containers outcome.lines) numbers ∧
      (outcome.lines.filter (isFresh 4)).map Line.bare = [placeholderLine 5, placeholderLine 6] ∧
      outcome.warnings = [⟨5⟩, ⟨6⟩] := by
  have fits : fitProgram ⟨1, 1⟩ wayside = .ok (fitContainers ⟨1, 1⟩ wayside).reindent :=
    fitProgram_eq_ok.mpr ⟨rfl, rfl⟩
  have last : lastPlaceholder (fuseHealth wayside) = 4 := rfl
  obtain ⟨numbers, flat, marked, found, -, -⟩ :=
    fitProgram_placeholders (Nat.le_refl 1) fits (by rw [last, warnings_wayside]; decide)
  rw [last, warnings_wayside] at flat
  rw [last] at marked
  rw [last, flat] at found
  exact ⟨_, numbers, fits, flat, marked, found, warnings_wayside⟩

end StatScript.Fitting
