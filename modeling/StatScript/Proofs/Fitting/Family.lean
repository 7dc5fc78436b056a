import Mathlib.Data.List.Basic
import StatScript.Proofs.Fitting.Names
import StatScript.Proofs.Fitting.Ranges

/-!
# Families of containers

A container and the auxiliary containers cut from it are fitted one after another from a queue. Here
the queue is unrolled: a family lists each auxiliary container with its fitted body, and a program is
a list of such groups.

Results:
1. `exists_family`, `exists_groups`: fitting a program is the same as listing its groups.
2. `Family.fresh`, `Groups.fresh`: the names handed out are fresh, in the order of the containers.
-/

namespace StatScript.Fitting

open Supply

/-! ## Families -/

/-- An auxiliary container: the lines moved into it, and what they were fitted to. -/
structure Member where
  relocation : Relocation
  fitted : Fitted

/-- An auxiliary container as it is written. -/
def Member.outcome (member : Member) : Outcome :=
  member.relocation.outcome ++ member.fitted.outcome

/-- The names of auxiliary containers, in order. -/
def memberNames (members : List Member) : List String :=
  members.map fun member => member.relocation.name

/-- Results put behind one another. -/
def Outcome.join : List Outcome → Outcome
  | [] => {}
  | first :: rest => first ++ join rest

/-- `Family limits base supply pending members behind`: from the relocations `pending` on, the
auxiliary containers `members` are written, and `behind` is the supply left at the end. -/
inductive Family (limits : Limits) (base : Option String) :
    Supply → List Relocation → List Member → Supply → Prop
  | nil {supply : Supply} : Family limits base supply [] [] supply
  | cons {supply behind : Supply} {relocation : Relocation} {rest : List Relocation}
      {fitted : Fitted} {members : List Member} :
      fitted = fit limits base {} supply relocation.body →
      Family limits base fitted.supply (rest ++ fitted.moved) members behind →
      Family limits base supply (relocation :: rest) (⟨relocation, fitted⟩ :: members) behind

/-- Writing the auxiliary containers still pending is listing their family. -/
theorem exists_family {limits : Limits} (conditionals : 1 ≤ limits.conditionals)
    (base : Option String) (supply : Supply) (pending : List Relocation) :
    ∃ members behind, Family limits base supply pending members behind ∧
      relocate limits base supply pending = (Outcome.join (members.map Member.outcome), behind) := by
  induction supply, pending using relocate.induct limits base with
  | case1 supply => exact ⟨[], supply, .nil, by rw [relocate]; rfl⟩
  | case2 supply relocation rest fitted fewer _ _ _ ih =>
      obtain ⟨members, behind, family, written⟩ := ih
      refine ⟨⟨relocation, fitted⟩ :: members, behind, .cons rfl family, ?_⟩
      rw [relocate, if_pos fewer, written]
      rfl
  | case3 supply relocation rest fitted more _ _ _ ih =>
      obtain ⟨members, behind, family, written⟩ := ih
      -- More cannot be moved out than was put in, so the guard fails for an empty body only.
      have empty : relocation.body = [] :=
        Decidable.of_not_not fun nonempty =>
          more (movedLines_fit_lt conditionals base supply nonempty)
      have fittedEmpty : fitted = { supply } := by
        simp only [fitted, empty, fit]
        rfl
      refine ⟨⟨relocation, fitted⟩ :: members, behind, .cons rfl ?_, ?_⟩
      · rw [fittedEmpty, List.append_nil]
        exact family
      · rw [relocate, if_neg more, written, empty, fittedEmpty]
        rfl

/-! ## Groups -/

/-- A container of a program, fitted, with the auxiliary containers cut from it. -/
structure Group where
  segment : Segment
  fitted : Fitted
  members : List Member

/-- A group as it is written. -/
def Group.outcome (group : Group) : Outcome :=
  { lines := group.segment.header.toList } ++ group.fitted.outcome ++
    Outcome.join (group.members.map Member.outcome)

/-- All names of auxiliary containers of groups, in order. -/
def auxiliaryOf (groups : List Group) : List String :=
  groups.flatMap fun group => memberNames group.members

/-- `Groups limits supply containers groups`: the containers of a program are fitted into groups. -/
inductive Groups (limits : Limits) : Supply → List Segment → List Group → Prop
  | nil {supply : Supply} : Groups limits supply [] []
  | cons {supply behind : Supply} {segment : Segment} {fitted : Fitted} {members : List Member}
      {rest : List Segment} {groups : List Group} :
      fitted = fit limits segment.name {} supply.restart segment.body →
      Family limits segment.name fitted.supply fitted.moved members behind →
      Groups limits behind rest groups →
      Groups limits supply (segment :: rest) (⟨segment, fitted, members⟩ :: groups)

/-- Fitting the containers of a program is listing their groups. -/
theorem exists_groups {limits : Limits} (conditionals : 1 ≤ limits.conditionals) (supply : Supply)
    (containers : List Segment) :
    ∃ groups, Groups limits supply containers groups ∧
      fitSegments limits supply containers = Outcome.join (groups.map Group.outcome) := by
  induction containers generalizing supply with
  | nil => exact ⟨[], .nil, rfl⟩
  | cons segment rest ih =>
      obtain ⟨members, behind, family, written⟩ := exists_family conditionals segment.name
        (fit limits segment.name {} supply.restart segment.body).supply
        (fit limits segment.name {} supply.restart segment.body).moved
      obtain ⟨groups, further, rest'⟩ := ih behind
      refine ⟨_, .cons rfl family further, ?_⟩
      simp only [fitSegments, fitSegment, written, rest']
      rfl

/-! ## Fresh names -/

section Movable

variable {limits : Limits} {base : Option String} {supply behind : Supply} {source : List Line}
  {relocation : Relocation} {pending rest : List Relocation} {members : List Member}

/-- The course of fitting an auxiliary container. -/
theorem Relocation.Movable.course (movable : relocation.Movable source) (headless : Headless source)
    (limits : Limits) (base : Option String) (supply : Supply) :
    Course limits base .outside {} supply relocation.body
      (fit limits base {} supply relocation.body) :=
  course_start limits base supply (headless.subset movable.subset) movable.nested

/-- What is moved out of an auxiliary container is moved out of the same source. -/
theorem movable_queue (headless : Headless source)
    (movable : ∀ queued ∈ relocation :: rest, queued.Movable source) :
    ∀ queued ∈ rest ++ (fit limits base {} supply relocation.body).moved,
      queued.Movable source := by
  obtain ⟨first, others⟩ := List.forall_mem_cons.mp movable
  refine List.forall_mem_append.mpr ⟨others, fun queued member => ?_⟩
  exact ((first.course headless limits base supply).moved queued member).mono first.subset

/-- A family is named by what was pending and then, in the order of its members, by the names of what
is moved out of them. What relates the supplies before and behind a body by these names relates those
before and behind the family. -/
theorem Family.names_eq (family : Family limits base supply pending members behind)
    (headless : Headless source) (movable : ∀ queued ∈ pending, queued.Movable source)
    (relates : Supply → List String → Supply → Prop) (refl : ∀ supply, relates supply [] supply)
    (append : ∀ {before middle behind : Supply} {first second : List String},
      relates before first middle → relates middle second behind →
      relates before (first ++ second) behind)
    (course : ∀ {supply : Supply} {lines : List Line} {fitted : Fitted},
      Course limits base .outside {} supply lines fitted →
      relates supply (names fitted.moved) fitted.supply) :
    ∃ new, memberNames members = names pending ++ new ∧ relates supply new behind := by
  induction family with
  | nil => exact ⟨[], rfl, refl _⟩
  | @cons supply behind relocation rest fitted members fits family ih =>
      subst fits
      obtain ⟨new, named, related⟩ := ih (movable_queue headless movable)
      have first := (movable relocation List.mem_cons_self).course headless limits base supply
      refine ⟨_, ?_, append (course first) related⟩
      rw [memberNames, List.map_cons, ← memberNames, named]
      simp [names]

/-- The names of a family behind those that were pending are fresh. -/
theorem Family.fresh (family : Family limits base supply pending members behind)
    (headless : Headless source) (movable : ∀ queued ∈ pending, queued.Movable source) :
    ∃ new, memberNames members = names pending ++ new ∧ Fresh supply new behind :=
  family.names_eq headless movable Fresh .refl .append Course.fresh

theorem Family.movable (family : Family limits base supply pending members behind)
    (headless : Headless source) (movable : ∀ queued ∈ pending, queued.Movable source) :
    ∀ member ∈ members, member.relocation.Movable source ∧
      ∃ supply, member.fitted = fit limits base {} supply member.relocation.body := by
  induction family with
  | nil => exact nofun
  | @cons supply behind relocation rest fitted members fits family ih =>
      subst fits
      exact List.forall_mem_cons.mpr ⟨⟨movable relocation List.mem_cons_self, supply, rfl⟩,
        ih (movable_queue headless movable)⟩

end Movable

/-- A container whose body can be fitted. -/
def Segment.Sound (segment : Segment) : Prop :=
  Headless segment.body ∧ Nested .outside segment.body

/-- The course of fitting a container. -/
theorem Segment.Sound.course {limits : Limits} {supply : Supply} {segment : Segment} {fitted : Fitted}
    (sound : segment.Sound) (fits : fitted = fit limits segment.name {} supply.restart segment.body) :
    Course limits segment.name .outside {} supply.restart segment.body fitted := by
  rw [fits]
  exact course_start limits segment.name supply.restart sound.1 sound.2

/-- All auxiliary containers of a program have names that are fresh and pairwise different. -/
theorem Groups.fresh {limits : Limits} {supply : Supply} {containers : List Segment}
    {groups : List Group} (fitted : Groups limits supply containers groups)
    (sound : ∀ segment ∈ containers, segment.Sound) :
    ∃ behind, Fresh supply (auxiliaryOf groups) behind := by
  induction fitted with
  | nil => exact ⟨_, .refl _⟩
  | @cons supply behind segment fitted members rest groups fits family further ih =>
      obtain ⟨⟨headless, nested⟩, others⟩ := List.forall_mem_cons.mp sound
      have course := Segment.Sound.course ⟨headless, nested⟩ fits
      obtain ⟨new, named, fresh⟩ := family.fresh headless course.moved
      obtain ⟨last, later⟩ := ih others
      have first : Fresh supply.restart (memberNames members) behind := by
        rw [named]
        exact course.fresh.append fresh
      refine ⟨last, ?_⟩
      rw [auxiliaryOf, List.flatMap_cons]
      exact Fresh.append ⟨first.nodup, first.new, first.taken⟩ later

theorem Groups.segments {limits : Limits} {supply : Supply} {containers : List Segment}
    {groups : List Group} (fitted : Groups limits supply containers groups) :
    groups.map Group.segment = containers := by
  induction fitted with
  | nil => rfl
  | cons _ _ _ ih => rw [List.map_cons, ih]

/-! ## The containers of a fitted program -/

/-- An auxiliary container in the fitted program. -/
def Member.segment (member : Member) : Segment :=
  { header := some (headerLine member.relocation.name)
    name := some member.relocation.name
    body := member.fitted.outcome.lines }

/-- The container of the program that a group was made from, as it stands in the fitted program. -/
def Group.original (group : Group) : Segment :=
  { group.segment with body := group.fitted.outcome.lines }

/-- The containers of a group in the fitted program. -/
def Group.containers (group : Group) : List Segment :=
  group.original :: group.members.map Member.segment

@[simp]
theorem Outcome.lines_join (outcomes : List Outcome) :
    (Outcome.join outcomes).lines = outcomes.flatMap Outcome.lines := by
  induction outcomes with
  | nil => rfl
  | cons first rest ih => simp [join, ih]

@[simp]
theorem Outcome.auxiliary_join (outcomes : List Outcome) :
    (Outcome.join outcomes).auxiliary = outcomes.flatMap Outcome.auxiliary := by
  induction outcomes with
  | nil => rfl
  | cons first rest ih => simp [join, ih]

@[simp]
theorem Group.lines_outcome (group : Group) :
    group.outcome.lines = group.containers.flatMap Segment.lines := by
  have member (member : Member) : member.outcome.lines = member.segment.lines := rfl
  simp [outcome, containers, original, Segment.lines, List.flatMap_map, member]

@[simp]
theorem Group.auxiliary_outcome (group : Group) :
    group.outcome.auxiliary = memberNames group.members := by
  have member (member : Member) : member.outcome.auxiliary = [member.relocation.name] := rfl
  simp [outcome, Fitted.outcome, memberNames, List.flatMap_map, member, ← List.map_eq_flatMap]

/-- All containers of groups, in order. -/
def containersOf (groups : List Group) : List Segment :=
  groups.flatMap Group.containers

theorem memberNames_flatMap (groups : List Group) :
    memberNames (groups.flatMap Group.members) = auxiliaryOf groups :=
  List.map_flatMap

theorem lines_groups (groups : List Group) :
    (Outcome.join (groups.map Group.outcome)).lines =
      (containersOf groups).flatMap Segment.lines := by
  simp [containersOf, List.flatMap_map, List.flatMap_assoc]

theorem auxiliary_groups (groups : List Group) :
    (Outcome.join (groups.map Group.outcome)).auxiliary = auxiliaryOf groups := by
  simp [auxiliaryOf, List.flatMap_map]

theorem headless_outcome (limits : Limits) (base : Option String) (supply : Supply)
    {lines : List Line} (headless : Headless lines) (nested : Nested .outside lines) :
    Headless (fit limits base {} supply lines).outcome.lines := by
  intro line member
  rcases List.mem_append.mp member with member | member
  · exact (course_start limits base supply headless nested).headless headless line member
  · obtain ⟨number, -, rfl⟩ := List.mem_map.mp member
    exact nofun

theorem Family.headed {limits : Limits} {base : Option String} {supply behind : Supply}
    {source : List Line} {pending : List Relocation} {members : List Member}
    (family : Family limits base supply pending members behind) (headless : Headless source)
    (movable : ∀ queued ∈ pending, queued.Movable source) :
    ∀ segment ∈ members.map Member.segment, segment.Headed headerName? := by
  intro segment listed
  obtain ⟨member, belongs, rfl⟩ := List.mem_map.mp listed
  obtain ⟨⟨name, nested, subset⟩, supply, fits⟩ := family.movable headless movable member belongs
  refine ⟨⟨_, rfl, rfl, (headerName?_headerLine name).symm⟩, ?_⟩
  rw [Member.segment, fits]
  exact headless_outcome limits base supply (headless.subset subset) nested

theorem Groups.headed {limits : Limits} {supply : Supply} {containers : List Segment}
    {groups : List Group} (fitted : Groups limits supply containers groups)
    (sound : ∀ segment ∈ containers, segment.Sound)
    (headed : ∀ segment ∈ containers, segment.Headed headerName?) :
    ∀ segment ∈ containersOf groups, segment.Headed headerName? := by
  induction fitted with
  | nil => exact nofun
  | @cons supply behind segment fitted members rest groups fits family further ih =>
      obtain ⟨⟨headless, nested⟩, others⟩ := List.forall_mem_cons.mp sound
      obtain ⟨header, headers⟩ := List.forall_mem_cons.mp headed
      have course := Segment.Sound.course ⟨headless, nested⟩ fits
      rw [containersOf, List.flatMap_cons, List.forall_mem_append, Group.containers,
        List.forall_mem_cons]
      refine ⟨⟨⟨header.header, ?_⟩, family.headed headless course.moved⟩, ih others headers⟩
      rw [Group.original, fits]
      exact headless_outcome limits segment.name supply.restart headless nested

/-- The containers of a fitted program are those of its groups. -/
theorem Groups.segments_lines {limits : Limits} {supply : Supply} {body : List Line}
    {containers : List Segment} {groups : List Group}
    (fitted : Groups limits supply ({ header := none, name := none, body } :: containers) groups)
    (sound : ∀ segment ∈ { header := none, name := none, body } :: containers, segment.Sound)
    (headed : ∀ segment ∈ containers, segment.Headed headerName?) :
    Fitting.segments headerName? ((containersOf groups).flatMap Segment.lines) =
      containersOf groups := by
  cases fitted with
  | @cons _ behind _ fitted members _ groups fits family further =>
      obtain ⟨⟨headless, nested⟩, others⟩ := List.forall_mem_cons.mp sound
      have course := course_start limits none supply.restart headless nested
      rw [← fits] at course
      refine segments_eq_of_flatten ?_ (List.forall_mem_append.mpr
        ⟨family.headed headless course.moved, further.headed others headed⟩)
      rw [fits]
      exact headless_outcome limits none supply.restart headless nested

/-- The headers in a fitted program are those of the program and of the auxiliary containers. -/
theorem Groups.headers {limits : Limits} {supply : Supply} {containers : List Segment}
    {groups : List Group} (fitted : Groups limits supply containers groups) {container : Segment}
    {header : Line} (listed : container ∈ containersOf groups)
    (headed : container.header = some header) :
    (∃ segment ∈ containers, segment.header = some header) ∨ ∃ name, header = headerLine name := by
  obtain ⟨group, belongs, inside⟩ := List.mem_flatMap.mp listed
  rcases List.mem_cons.mp inside with rfl | inside
  · refine .inl ⟨group.segment, ?_, headed⟩
    rw [← fitted.segments]
    exact List.mem_map.mpr ⟨group, belongs, rfl⟩
  · obtain ⟨member, -, rfl⟩ := List.mem_map.mp inside
    exact .inr ⟨_, (Option.some.inj headed).symm⟩

/-- What holds of every fitted body holds of every container of the groups. -/
theorem Groups.bodies {limits : Limits} {supply : Supply} {source : List Line}
    {containers : List Segment} {groups : List Group} {holds : List Line → Prop}
    (fitted : Groups limits supply containers groups)
    (sound : ∀ segment ∈ containers, segment.Sound)
    (within : ∀ segment ∈ containers, segment.body ⊆ source)
    (outcome : ∀ (base : Option String) (supply : Supply) (lines : List Line), Headless lines →
      Nested .outside lines → lines ⊆ source → holds (fit limits base {} supply lines).outcome.lines) :
    ∀ container ∈ containersOf groups, holds container.body := by
  induction fitted with
  | nil => exact nofun
  | @cons supply behind segment fitted members rest groups fits family further ih =>
      obtain ⟨⟨headless, nested⟩, others⟩ := List.forall_mem_cons.mp sound
      obtain ⟨subset, subsets⟩ := List.forall_mem_cons.mp within
      subst fits
      have course := course_start limits segment.name supply.restart headless nested
      rw [containersOf, List.flatMap_cons, List.forall_mem_append, Group.containers,
        List.forall_mem_cons]
      refine ⟨⟨outcome _ _ _ headless nested subset, ?_⟩, ih others subsets⟩
      intro container listed
      obtain ⟨member, belongs, rfl⟩ := List.mem_map.mp listed
      obtain ⟨movable, supply, fits⟩ := family.movable headless course.moved member belongs
      rw [Member.segment, fits]
      exact outcome _ _ _ (headless.subset movable.subset) movable.nested
        (List.Subset.trans movable.subset subset)

/-! ## Programs -/

/-- The containers of a well nested program can be fitted. -/
theorem segments_sound {naming : Line → Option String} {lines : List Line}
    (nested : Nested .outside lines) : ∀ segment ∈ segments naming lines, segment.Sound := by
  obtain ⟨headless, headed⟩ := cut_headed naming lines
  rw [← cut_flatten naming lines, nested_flatten headed] at nested
  exact List.forall_mem_cons.mpr ⟨⟨headless, nested.1⟩,
    fun segment member => ⟨(headed segment member).body, nested.2 segment member⟩⟩

/-- The names that a program leaves for its auxiliary containers. -/
def programSupply (lines : List Line) : Supply :=
  Supply.ofProgram ((segments headerName? lines).filterMap Segment.name) lines

/-- The containers of a program fitted one after another, before depths are set. -/
def fitContainers (limits : Limits) (lines : List Line) : Outcome :=
  fitSegments limits (programSupply lines) (segments headerName? lines)

/-- A result with the depths that follow from its tags. -/
def Outcome.reindent (outcome : Outcome) : Outcome :=
  { outcome with lines := Line.reindent outcome.lines }

/-- A program is fitted iff it is well nested behind the fusion of health lines. -/
theorem fitProgram_eq_ok {limits : Limits} {lines : List Line} {outcome : Outcome} :
    fitProgram limits lines = .ok outcome ↔
      Nested .outside (fuseHealth lines) ∧
        outcome = (fitContainers limits (fuseHealth lines)).reindent := by
  rw [← check_eq_ok_iff, fitProgram, fitProgramWith]
  cases check (fuseHealth lines) with
  | error error => simp [bind, Except.bind]
  | ok _ => simp [bind, Except.bind, pure, Except.pure, eq_comm, Outcome.reindent, fitContainers,
      programSupply]

/-- A program is refused for what the check reports. -/
theorem fitProgram_eq_error {limits : Limits} {lines : List Line} {error : StructureError} :
    fitProgram limits lines = .error error ↔ check (fuseHealth lines) = .error error := by
  rw [fitProgram, fitProgramWith]
  cases check (fuseHealth lines) with
  | error other => simp [bind, Except.bind]
  | ok _ => simp [bind, Except.bind, pure, Except.pure]

/-- A well nested program is fitted into groups, which are the containers of the result. -/
theorem exists_program {limits : Limits} (conditionals : 1 ≤ limits.conditionals)
    {lines : List Line} (nested : Nested .outside lines) :
    ∃ groups, Groups limits (programSupply lines) (segments headerName? lines) groups ∧
      fitContainers limits lines = Outcome.join (groups.map Group.outcome) ∧
      segments headerName? (fitContainers limits lines).lines = containersOf groups := by
  obtain ⟨groups, fitted, written⟩ := exists_groups conditionals (programSupply lines)
    (segments headerName? lines)
  refine ⟨groups, fitted, written, ?_⟩
  rw [fitContainers, written, lines_groups]
  exact fitted.segments_lines (segments_sound nested) (cut_headed headerName? lines).2

/-- A container whose lines do not fit: too many changes for one filler, and then for the body of a
conditional. -/
def crowded : List Line :=
  [headerLine "f", change "a", change "b", { text := "if and (a > 1) \x7b", tag := .openAll },
    change "c", change "d", Line.closing, change "e"]
where
  change (text : String) : Line := { text, tag := .change .player }

theorem fitProgram_crowded :
    fitProgram ⟨1, 1⟩ crowded = .ok (fitContainers ⟨1, 1⟩ crowded).reindent :=
  fitProgram_eq_ok.mpr ⟨rfl, rfl⟩

theorem auxiliary_crowded :
    (fitContainers ⟨1, 1⟩ crowded).reindent.auxiliary = ["f 1", "f 2"] := by cbv

end StatScript.Fitting
