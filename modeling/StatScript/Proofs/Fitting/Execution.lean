import StatScript.Machine
import StatScript.Proofs.Fitting.Depth
import StatScript.Proofs.Fitting.Health

/-!
# Running fitted programs

The machine does not see placeholders, and a filler is always entered. So a body from which nothing was
moved out runs as it did before it was fitted.

Results:
1. `Machine.run_append`, `Machine.run_bare`: runs of lines put behind one another, and without depths.
2. `Course.run`, `run_fitSegments`: fitting a body keeps its runs, if nothing is moved out, and so does
   fitting containers one after another.
3. `fitProgram_run`: fitting a program without headers succeeds and keeps its runs, for any limits.
4. `fitProgram_run_unmoved`: fitting any program keeps its runs, if nothing is moved out.
-/

namespace StatScript

namespace Machine

@[simp]
theorem run_append (machine : Machine) (first second : List Line) :
    machine.run (first ++ second) = (machine.run first).bind fun next => next.run second := by
  induction first generalizing machine with
  | nil => rfl
  | cons line rest ih =>
      rw [List.cons_append, run, run]
      cases machine.step line with
      | error fault => rfl
      | ok next => exact ih next

theorem run_cons_congr {machine : Machine} {line : Line} {first second : List Line}
    (same : ∀ next, machine.step line = .ok next → next.run first = next.run second) :
    machine.run (line :: first) = machine.run (line :: second) := by
  rw [run, run]
  cases stepped : machine.step line with
  | error fault => rfl
  | ok next => exact same next stepped

theorem run_cons {machine next : Machine} {line : Line} (stepped : machine.step line = .ok next)
    (rest : List Line) : machine.run (line :: rest) = next.run rest := by
  rw [run, stepped]
  rfl

/-- Runs do not depend on depths. -/
theorem run_bare {lines others : List Line} (same : others.map Line.bare = lines.map Line.bare)
    (machine : Machine) : machine.run others = machine.run lines := by
  have bare (lines : List Line) (machine : Machine) :
      machine.run (lines.map Line.bare) = machine.run lines := by
    induction lines generalizing machine with
    | nil => rfl
    | cons line rest ih =>
        have stepped : machine.step line.bare = machine.step line := rfl
        rw [List.map_cons, run, run, stepped]
        cases machine.step line with
        | error fault => rfl
        | ok next => exact ih next
  rw [← bare, same, bare]

theorem step_comment {machine : Machine} {line : Line} (tag : line.tag = .comment) :
    machine.step line = .ok machine := by
  rw [step, tag]

/-- A plain line does not change whether lines are skipped. -/
theorem step_plain_skipping {machine next : Machine} {line : Line} (plain : line.tag.isPlain)
    (stepped : machine.step line = .ok next) : next.skipping = machine.skipping := by
  unfold step at stepped
  split at stepped
  case h_6 =>
    split at stepped
    · cases stepped
      rfl
    · cases performed : machine.store.perform line.text with
      | error fault =>
          rw [performed] at stepped
          cases stepped
      | ok store =>
          rw [performed] at stepped
          cases stepped
          rfl
  case h_7 => cases stepped; rfl
  all_goals
    rename_i tag
    rw [tag] at plain
    cases plain

theorem step_closes {machine : Machine} {line : Line} (closes : line.tag.closes) :
    machine.step line = .ok { machine with skipping := false } := by
  unfold step
  cases tag : line.tag <;> simp_all [Tag.closes]

/-- Behind a line that opens a conditional, lines are skipped if it is not entered. -/
theorem step_opens {machine : Machine} {line : Line} {all entered : Bool}
    (tag : line.tag = if all then .openAll else .openAny)
    (enters : machine.store.enters line.text all = .ok entered) :
    machine.step line = .ok { machine with skipping := !entered } := by
  rw [step, tag]
  cases all with
  | true =>
      simp only [if_pos, enters]
      rfl
  | false =>
      simp only [Bool.false_eq_true, if_false, enters]
      rfl

end Machine

namespace Fitting

/-! ## Bodies -/

/-- Lines are skipped only in conditionals of the program. -/
def Room.Runs (room : Room) (machine : Machine) : Prop :=
  room.place ≠ .conditional → machine.skipping = false

theorem step_filler {machine : Machine} (running : machine.skipping = false) :
    machine.step fillerLine = .ok machine := by
  have entered : machine.store.enters fillerLine.text true = .ok true := by
    unfold Store.enters
    rw [show conditionsOf fillerLine.text = [] from rfl]
  obtain ⟨store, skipping⟩ := machine
  obtain rfl : skipping = false := running
  exact Machine.step_opens rfl entered

/-- Behind a line that leaves conditionals, lines are not skipped. -/
theorem skipping_eq_false {position : Position} {machine next : Machine} {line : Line}
    (header : line.tag ≠ .header) (stepped : position.step line.tag = some .outside)
    (ran : machine.step line = .ok next)
    (running : position = .outside → machine.skipping = false) : next.skipping = false := by
  by_cases plain : line.tag.isPlain
  · rw [step_plain plain] at stepped
    rw [Machine.step_plain_skipping plain ran]
    exact running (Option.some.inj stepped)
  · cases opens : line.tag.opens with
    | true => exact absurd (step_opens opens stepped).2 nofun
    | false =>
        have ends := Tag.closesBody_of_not_isPlain plain header opens
        have closes := (step_closesBody ends stepped).2.mp rfl
        rw [Machine.step_closes closes] at ran
        cases ran
        rfl

/-- Behind well nested lines, no line is skipped. -/
theorem skipping_run {machine later : Machine} {position : Position} {lines : List Line}
    (headless : Headless lines) (nested : Nested position lines)
    (running : position = .outside → machine.skipping = false)
    (ran : machine.run lines = .ok later) : later.skipping = false := by
  induction lines generalizing machine position with
  | nil =>
      cases ran
      exact running (Option.some.inj nested)
  | cons line rest ih =>
      obtain ⟨next, stepped, nested⟩ := nested_cons.mp nested
      obtain ⟨header, headless⟩ := headless_cons.mp headless
      cases step : machine.step line with
      | error fault =>
          rw [Machine.run, step] at ran
          cases ran
      | ok middle =>
          rw [Machine.run_cons step] at ran
          refine ih headless nested (fun outside => ?_) ran
          exact skipping_eq_false header (outside ▸ stepped) step running

/-- A body from which nothing is moved out runs as it did before it was fitted. -/
theorem Course.run {limits : Limits} {base : Option String} {position : Position} {room : Room}
    {supply : Supply} {lines : List Line} {fitted : Fitted}
    (course : Course limits base position room supply lines fitted) (moved : fitted.moved = [])
    {machine : Machine} (runs : room.Runs machine) :
    machine.run fitted.lines = machine.run lines := by
  induction course generalizing machine with
  | done _ => rfl
  | endFiller place _ ih =>
      have running := runs (by rw [place]; exact nofun)
      have closed : machine.step Line.closing = .ok machine := by
        rw [Machine.step_closes rfl, ← running]
      exact (Machine.run_cons closed _).trans (ih moved fun _ => running)
  | plain plain _ place _ _ ih =>
      refine Machine.run_cons_congr fun next stepped => ih moved ?_
      rw [Room.Runs, place, Machine.step_plain_skipping plain stepped]
      exact runs
  | turn turns header stepped _ _ _ stands stands' _ ih =>
      refine Machine.run_cons_congr fun next ran => ih moved fun outside => ?_
      obtain rfl := stands'.eq_outside outside
      refine skipping_eq_false header stepped ran fun left => runs fun inside => ?_
      exact stands.mp inside left
  | @fill room next supply line rest fitted kind tag place _ filled _ ih =>
      have running := runs (by rw [place]; exact nofun)
      refine (Machine.run_cons (step_filler running) (line :: fitted.lines)).trans ?_
      refine Machine.run_cons_congr fun next stepped => ih moved fun _ => ?_
      rw [Machine.step_plain_skipping (Tag.isPlain_change tag) stepped, running]
  | moveRest _ _ _ _ => cases moved
  | moveBody _ _ _ _ _ _ _ => cases moved
  | @markRest after room next supply line rest fitted _ place behind stands' stepped verdict _ ih =>
      have running := runs (by rw [place]; exact nofun)
      have skipped : machine.step (placeholderLine supply.nextPlaceholder.1) = .ok machine :=
        Machine.step_comment rfl
      refine (Machine.run_cons skipped (line :: fitted.lines)).trans ?_
      refine Machine.run_cons_congr fun next ran => ih moved fun outside => ?_
      obtain rfl := stands'.eq_outside outside
      have header : line.tag ≠ .header := by
        rcases change_or_opens verdict nofun with ⟨kind, tag, -⟩ | ⟨opens, -, -⟩
        · rw [tag]
          exact nofun
        · intro tag
          rw [tag] at opens
          cases opens
      exact skipping_eq_false header stepped ran fun _ => running
  | @markBody position room next supply line rest fitted _ place behind _ plain _ _ ih =>
      have skipped : machine.step (placeholderLine supply.nextPlaceholder.1) = .ok machine :=
        Machine.step_comment rfl
      refine (Machine.run_cons skipped (line :: fitted.lines)).trans ?_
      exact Machine.run_cons_congr fun next _ => ih moved fun outside => absurd behind outside

/-! ## Containers -/

theorem run_trailing (machine : Machine) (numbers : List Nat) :
    machine.run (numbers.map trailingLine) = .ok machine := by
  induction numbers with
  | nil => rfl
  | cons number rest ih =>
      have skipped : machine.step (trailingLine number) = .ok machine := Machine.step_comment rfl
      rw [List.map_cons, Machine.run_cons skipped, ih]

section Containers

variable {limits : Limits} {supply : Supply} {segment : Segment} {containers : List Segment}

/-- Each container that is still to be written is an auxiliary one. -/
theorem pending_eq_nil {base : Option String} {pending : List Relocation}
    (auxiliary : (relocate limits base supply pending).1.auxiliary = []) : pending = [] := by
  cases pending with
  | nil => rfl
  | cons relocation rest =>
      rw [relocate] at auxiliary
      split at auxiliary <;> cases auxiliary

/-- A container without auxiliary ones is its fitted body behind its header. -/
theorem fitSegment_unmoved (auxiliary : (fitSegment limits supply segment).1.auxiliary = []) :
    ∃ fitted, fit limits segment.name {} supply.restart segment.body = fitted ∧
      fitted.moved = [] ∧
      fitSegment limits supply segment =
        ({ lines := segment.header.toList } ++ fitted.outcome, fitted.supply) := by
  refine ⟨_, rfl, ?_⟩
  have moved : (fit limits segment.name {} supply.restart segment.body).moved = [] :=
    pending_eq_nil auxiliary
  refine ⟨moved, ?_⟩
  rw [fitSegment, moved, relocate]
  refine Prod.ext ?_ rfl
  show Outcome.mk (_ ++ []) (_ ++ []) (_ ++ []) _ = _
  simp only [List.append_nil]
  rfl

/-- Behind a container that keeps its runs, the next one starts outside conditionals. -/
theorem run_fitSegment (sound : segment.Sound)
    (header : ∀ line ∈ segment.header, line.tag = .header)
    (auxiliary : (fitSegment limits supply segment).1.auxiliary = []) {machine : Machine}
    (running : machine.skipping = false) :
    machine.run (fitSegment limits supply segment).1.lines = machine.run segment.lines ∧
      ∀ later, machine.run segment.lines = .ok later → later.skipping = false := by
  obtain ⟨headless, nested⟩ := sound
  obtain ⟨fitted, fits, moved, written⟩ := fitSegment_unmoved auxiliary
  have course := Segment.Sound.course ⟨headless, nested⟩ fits.symm
  have entered : machine.run segment.header.toList = .ok machine := by
    cases head : segment.header with
    | none => rfl
    | some line =>
        have stepped : machine.step line = .ok machine := by
          rw [Machine.step, header line (head ▸ rfl)]
        rw [Option.toList_some, Machine.run_cons stepped]
        rfl
  have body : machine.run segment.lines = machine.run segment.body := by
    simp [Segment.lines, entered, Except.bind]
  rw [body]
  refine ⟨?_, fun later ran => skipping_run headless nested (fun _ => running) ran⟩
  rw [written]
  show machine.run (segment.header.toList ++ (fitted.lines ++ fitted.placeholders.map trailingLine))
    = _
  rw [Machine.run_append, entered]
  show machine.run (fitted.lines ++ fitted.placeholders.map trailingLine) = _
  rw [Machine.run_append, course.run moved fun _ => running]
  cases machine.run segment.body with
  | error fault => rfl
  | ok later => exact run_trailing later fitted.placeholders

/-- Containers from which nothing is moved out run as they did before they were fitted. -/
theorem run_fitSegments (sound : ∀ segment ∈ containers, segment.Sound)
    (headers : ∀ segment ∈ containers, ∀ line ∈ segment.header, line.tag = .header)
    (auxiliary : (fitSegments limits supply containers).auxiliary = []) (machine : Machine)
    (running : machine.skipping = false) :
    machine.run (fitSegments limits supply containers).lines =
      machine.run (containers.flatMap Segment.lines) := by
  induction containers generalizing supply machine with
  | nil => rfl
  | cons segment rest ih =>
      obtain ⟨first, others⟩ := List.forall_mem_cons.mp sound
      obtain ⟨header, headers⟩ := List.forall_mem_cons.mp headers
      obtain ⟨here, behind⟩ := List.append_eq_nil_iff.mp auxiliary
      obtain ⟨same, outside⟩ := run_fitSegment first header here running
      rw [List.flatMap_cons, Machine.run_append, ← same]
      show machine.run ((fitSegment limits supply segment).1.lines ++
        (fitSegments limits (fitSegment limits supply segment).2 rest).lines) = _
      rw [Machine.run_append, same]
      cases ran : machine.run segment.lines with
      | error fault => rfl
      | ok later => exact ih others headers behind later (outside later ran)

end Containers

/-! ## Programs -/

theorem header_segments {naming : Line → Option String} {lines : List Line} {segment : Segment}
    (listed : segment ∈ segments naming lines) : ∀ line ∈ segment.header, line.tag = .header := by
  rcases List.mem_cons.mp listed with rfl | listed
  · exact nofun
  · obtain ⟨⟨header, headed, tag, -⟩, -⟩ := (cut_headed naming lines).2 segment listed
    rintro line member
    rw [headed] at member
    cases member
    exact tag

theorem run_fitContainers {limits : Limits} {lines : List Line} (nested : Nested .outside lines)
    (auxiliary : (fitContainers limits lines).auxiliary = []) (store : Store) :
    store.run (fitContainers limits lines).reindent.lines = store.run lines := by
  have whole : (segments headerName? lines).flatMap Segment.lines = lines :=
    cut_flatten headerName? lines
  have kept := run_fitSegments (segments_sound nested) (fun _ => header_segments) auxiliary
    { store } rfl
  unfold Store.run
  rw [Outcome.reindent, Line.reindent, Machine.run_bare (bare_reindentFrom 0 _), fitContainers,
    kept, whole]

theorem segments_headless {naming : Line → Option String} {lines : List Line}
    (headless : Headless lines) :
    segments naming lines = [{ header := none, name := none, body := lines }] := by
  have only : segments naming (lines ++ List.flatMap Segment.lines []) = _ :=
    segments_eq_of_flatten headless nofun
  rwa [List.flatMap_nil, List.append_nil] at only

/-- Fitting a program without headers succeeds and keeps its runs, for any limits. -/
theorem fitProgram_run (limits : Limits) {lines : List Line} (headless : Headless lines)
    (nested : Nested .outside lines) (flagged : ∀ line ∈ lines, Flagged line) :
    ∃ outcome, fitProgram limits lines = .ok outcome ∧
      ∀ store : Store, store.run outcome.lines = store.run lines := by
  refine ⟨(fitContainers limits lines).reindent, ?_, run_fitContainers nested ?_⟩
  · rw [fitProgram_eq_ok, fuseHealth_eq_self flagged]
    exact ⟨nested, rfl⟩
  · have course := course_start limits none (programSupply lines).restart headless nested
    rw [fitContainers, segments_headless headless]
    simp only [fitSegments, fitSegment, course.moved_eq_nil, relocate]
    rfl

/-- A program from which nothing is moved out runs as it did before it was fitted, from whatever is in
the cells: it stops at the same fault, or ends with the same cells. -/
theorem fitProgram_run_unmoved {limits : Limits} {lines : List Line} {outcome : Outcome}
    (fits : fitProgram limits lines = .ok outcome) (unmoved : outcome.auxiliary = [])
    (store : Store) : store.run outcome.lines = store.run (fuseHealth lines) := by
  obtain ⟨nested, rfl⟩ := fitProgram_eq_ok.mp fits
  exact run_fitContainers nested unmoved store

/-- A program that takes a filler and placeholders, and from whose one named container nothing has to be
moved out. -/
def stretched : List Line :=
  crowd ++ headerLine "f" :: rest
where
  change (text : String) : Line := { text, tag := .change .player }
  crowd : List Line :=
    [change "stat a set 5", change "stat a inc 1", change "stat a inc 2",
      { text := "if or (stat a > 6, stat b < 0) \x7b", tag := .openAny }, change "stat b set 1",
      change "stat b inc 1", Line.closing]
  rest : List Line := [change "stat c set 7", change "stat c divide %stat.player/b%"]

theorem fitContainers_stretched :
    ∃ lines, fitContainers ⟨1, 1⟩ stretched = { lines, placeholders := [1, 2], fillers := 2 } := by
  have supplied : programSupply stretched = { taken := ["f"], placeholder := 0 } := rfl
  have cut : segments headerName? stretched =
      [{ header := none, name := none, body := stretched.crowd },
        { header := some (headerLine "f"), name := some "f", body := stretched.rest }] := rfl
  rw [fitContainers, supplied, cut]
  simp only [fitSegments, fitSegment]
  rw [stretched.crowd, fit_keep rfl, fit_fill rfl, fit_markRest rfl, fit_keep rfl, fit_keep rfl,
    fit_markBody rfl, fit_keep rfl, fit, stretched.rest, fit_keep rfl, fit_fill rfl, fit]
  simp only [Fitted.after, Fitted.afterFiller, Fitted.afterPlaceholder, relocate]
  exact ⟨_, rfl⟩

theorem fitProgram_run_unmoved_stretched :
    ∃ outcome, fitProgram ⟨1, 1⟩ stretched = .ok outcome ∧ outcome.auxiliary = [] ∧
      outcome.fillers = 2 ∧ outcome.placeholders = [1, 2] ∧
      ∀ store : Store, store.run outcome.lines = store.run (fuseHealth stretched) := by
  obtain ⟨lines, written⟩ := fitContainers_stretched
  have fits : fitProgram ⟨1, 1⟩ stretched = .ok (fitContainers ⟨1, 1⟩ stretched).reindent :=
    fitProgram_eq_ok.mpr ⟨rfl, rfl⟩
  rw [written] at fits
  exact ⟨_, fits, rfl, rfl, rfl, fitProgram_run_unmoved fits rfl⟩

end Fitting

end StatScript
