import StatScript.Proofs.Fitting.Family

/-!
# Depths

Fitting sets the depth of every line at its end, from the tags. Nothing else depends on depths, so
programs are compared without them.

Results:
1. `containers_eq`: taking depths away commutes with the cut into containers.
2. `fitProgram_groups`: without depths, the containers of a fitted program are those of its groups.
-/

namespace StatScript

/-- A line without its depth. -/
def Line.bare (line : Line) : Line :=
  { line with indent := 0 }

namespace Fitting

@[simp]
theorem bare_reindentFrom (depth : Nat) (lines : List Line) :
    (Line.reindentFrom depth lines).map Line.bare = lines.map Line.bare := by
  induction lines generalizing depth with
  | nil => rfl
  | cons line rest ih => exact congrArg (line.bare :: ·) (ih _)

theorem reindentFrom_congr {lines others : List Line}
    (same : others.map Line.bare = lines.map Line.bare) (depth : Nat) :
    Line.reindentFrom depth others = Line.reindentFrom depth lines := by
  induction lines generalizing others depth with
  | nil => rw [List.map_eq_nil_iff.mp same]
  | cons line rest ih =>
      cases others with
      | nil => cases same
      | cons other others =>
          obtain ⟨first, further⟩ := List.cons.inj same
          have tag : other.tag = line.tag := congrArg (fun line => line.bare.tag) first
          have line_eq : { other with indent := Line.depthOf depth other.tag } =
              { line with indent := Line.depthOf depth line.tag } :=
            congrArg (fun bare : Line => { bare with indent := Line.depthOf depth bare.tag }) first
          rw [Line.reindentFrom, Line.reindentFrom, line_eq, tag, ih further]

/-- Setting depths again changes nothing. -/
@[simp]
theorem reindent_reindent (lines : List Line) :
    Line.reindent (Line.reindent lines) = Line.reindent lines :=
  reindentFrom_congr (bare_reindentFrom 0 lines) 0

theorem nested_congr {lines others : List Line}
    (same : others.map Line.bare = lines.map Line.bare) {position : Position}
    (nested : Nested position lines) : Nested position others := by
  induction lines generalizing others position with
  | nil => rwa [List.map_eq_nil_iff.mp same]
  | cons line rest ih =>
      cases others with
      | nil => cases same
      | cons other others =>
          obtain ⟨first, further⟩ := List.cons.inj same
          have tag : other.tag = line.tag := congrArg (fun line => line.bare.tag) first
          obtain ⟨next, stepped, nested⟩ := nested_cons.mp nested
          exact nested_cons.mpr ⟨next, tag ▸ stepped, ih further nested⟩

/-- A container without depths. -/
def Segment.bare (segment : Segment) : Segment :=
  { header := segment.header.map Line.bare
    name := segment.name
    body := segment.body.map Line.bare }

@[simp]
theorem headerName?_bare (line : Line) : headerName? line.bare = headerName? line := by
  simp only [headerName?, Line.bare]

theorem cut_bare {naming : Line → Option String} (bare : ∀ line, naming line.bare = naming line)
    (lines : List Line) :
    cut naming (lines.map Line.bare) =
      ((cut naming lines).1.map Line.bare, (cut naming lines).2.map Segment.bare) := by
  induction lines with
  | nil => rfl
  | cons line rest ih =>
      rw [List.map_cons]
      by_cases tag : line.tag = .header
      · rw [cut_header tag, cut_header (show line.bare.tag = .header from tag), ih, bare]
        rfl
      · rw [cut_other tag, cut_other (show line.bare.tag ≠ .header from tag), ih]
        rfl

/-- The containers of a program, without depths. -/
def containers (lines : List Line) : List Segment :=
  segments headerName? (lines.map Line.bare)

theorem containers_eq (lines : List Line) :
    containers lines = (segments headerName? lines).map Segment.bare := by
  rw [containers, segments, cut_bare headerName?_bare]
  rfl

@[simp]
theorem containers_reindent (lines : List Line) :
    containers (Line.reindent lines) = containers lines := by
  simp [containers, Line.reindent]

/-- The containers of a fitted program are those of the groups that it was fitted into. -/
theorem fitProgram_groups {limits : Limits} {lines : List Line} {outcome : Outcome}
    (conditionals : 1 ≤ limits.conditionals) (fits : fitProgram limits lines = .ok outcome) :
    ∃ groups, Groups limits (programSupply (fuseHealth lines))
        (segments headerName? (fuseHealth lines)) groups ∧
      outcome.auxiliary = auxiliaryOf groups ∧
      containers outcome.lines = (containersOf groups).map Segment.bare := by
  obtain ⟨nested, rfl⟩ := fitProgram_eq_ok.mp fits
  obtain ⟨groups, fitted, written, cutAgain⟩ := exists_program conditionals nested
  refine ⟨groups, fitted, ?_, ?_⟩
  · rw [← auxiliary_groups, ← written]
    rfl
  · rw [Outcome.reindent, containers_reindent, containers_eq, cutAgain]

theorem exists_container {lines : List Line} {groups : List Group} {segment : Segment}
    (all : containers lines = (containersOf groups).map Segment.bare)
    (listed : segment ∈ segments headerName? lines) :
    ∃ container ∈ containersOf groups, container.bare = segment.bare := by
  rw [← List.mem_map, ← all, containers_eq]
  exact List.mem_map.mpr ⟨segment, listed, rfl⟩

/-- What holds of every fitted body, whatever its depths, holds of the containers of a fitted
program. -/
theorem fitProgram_bodies {limits : Limits} {lines : List Line} {outcome : Outcome}
    {holds : List Line → Prop} (conditionals : 1 ≤ limits.conditionals)
    (fits : fitProgram limits lines = .ok outcome)
    (congr : ∀ {lines others : List Line}, others.map Line.bare = lines.map Line.bare →
      holds lines → holds others)
    (fitted : ∀ (base : Option String) (supply : Supply) (body : List Line), Headless body →
      Nested .outside body → body ⊆ fuseHealth lines →
      holds (fit limits base {} supply body).outcome.lines) :
    ∀ segment ∈ segments headerName? outcome.lines, holds segment.body := by
  intro segment listed
  obtain ⟨groups, grouped, -, all⟩ := fitProgram_groups conditionals fits
  obtain ⟨container, belongs, same⟩ := exists_container all listed
  refine congr (congrArg Segment.body same).symm ?_
  exact grouped.bodies (segments_sound (fitProgram_eq_ok.mp fits).1)
    (fun _ listed => segments_subset listed) fitted container belongs

end Fitting

end StatScript
