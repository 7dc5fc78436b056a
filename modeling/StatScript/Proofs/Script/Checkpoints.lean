import Mathlib.Data.List.Forall2
import StatScript.Proofs.Script.Control

/-!
# Checkpoints

A checkpoint reports the lines that the current container has gained since the last one. In between, lines may be
put into the preamble, before the mark, and an `else` may change a line that was reported. What was reported
stays in step with the container all the same.

Results:
1. `Tracks.extend`, `Tracks.fuse`, `Tracks.preamble`, `Tracks.checkpoint`: each way to write in a container keeps
   its record in step.
2. `Tracks.apply`, `tracks_after`: so does each step, refused or not, and hence every history.
3. `checkpoints_report_once`: right behind a checkpoint, the reports of a container are its lines, without the
   preamble lines that came later.
-/

namespace StatScript

/-- `Reported given now`: a line stands as it was given, or it closed a first body then and starts the second
now. -/
inductive Reported : Line → Line → Prop
  | same {line : Line} : Reported line line
  | fused {indent : Nat} : Reported { Line.closing with indent } { Line.reopening with indent }

theorem Reported.reopens {given line : Line} {depth : Nat} (reported : Reported given line)
    (closing : line = { Line.closing with indent := depth }) :
    Reported given { Line.reopening with indent := depth } := by
  cases reported with
  | same =>
      subst closing
      exact .fused
  | fused =>
      have tag := congrArg Line.tag closing
      cases tag

/-- What was reported as the last line stays so when it is fused. -/
theorem forall₂_reopens {given lines : List Line} {depth : Nat}
    (reported : List.Forall₂ Reported given (lines ++ [{ Line.closing with indent := depth }])) :
    List.Forall₂ Reported given (lines ++ [{ Line.reopening with indent := depth }]) := by
  induction lines generalizing given with
  | nil =>
      obtain ⟨line, rest, first, none, rfl⟩ := List.forall₂_cons_right_iff.mp reported
      exact .cons (first.reopens rfl) none
  | cons line lines ih =>
      obtain ⟨other, rest, first, further, rfl⟩ := List.forall₂_cons_right_iff.mp reported
      exact .cons first (ih further)

/-! ## Records -/

/-- What the checkpoints of a container have returned, and the preamble lines put into it behind the first of
them. -/
structure Record where
  reports : List (List Line) := []
  late : List Line := []

namespace Script

/-- The record of the container `name` behind a step of the script. -/
def Step.record (name : Option String) (script : Script) (record : Record) : Step → Record
  | checkpoint =>
      if script.current = name then { record with reports := record.reports ++ [script.checkpoint.1] }
      else record
  | preamble line =>
      if script.current = name ∧ record.reports ≠ [] then
        { record with late := record.late ++ [{ line with indent := 0 }] }
      else record
  | _ => record

theorem Step.record_of_line? {step : Step} {line : Line} (writes : step.line? = some line) (name : Option String)
    (script : Script) (record : Record) : step.record name script record = record := by
  cases step <;> cases writes <;> rfl

/-- The record of the container `name` behind further steps of the script. -/
def recordFrom (name : Option String) (script : Script) (record : Record) : List Step → Record
  | [] => record
  | step :: rest => recordFrom name (step.apply script) (step.record name script record) rest

/-- The record of the container `name` behind a history. -/
def recordOf (limits : Limits) (name : Option String) (steps : List Step) : Record :=
  recordFrom name (new limits) {} steps

end Script

/-- The record is in step with the container: without a checkpoint it is empty, and else the lines before the mark
are those reported, beside the preamble lines that came later. -/
inductive Tracks (record : Record) (container : Container) : Prop
  | unreported : record = {} → container.reported = none → Tracks record container
  | reported {front body rest : List Line} :
      record.reports ≠ [] → container.listing.preamble = front ++ record.late →
      container.listing.body = body ++ rest →
      container.reported = some (container.listing.preamble.length + body.length) →
      List.Forall₂ Reported record.reports.flatten (front ++ body) → Tracks record container

namespace Tracks

variable {record : Record} {container : Container}

/-- Lines behind the body are not reported yet. -/
theorem extend (tracks : Tracks record container) (lines : List Line) (indent : Nat) :
    Tracks record { container with
      listing := { container.listing with body := container.listing.body ++ lines, indent } } := by
  cases tracks with
  | unreported empty unmarked => exact .unreported empty unmarked
  | @reported front body rest nonempty preamble body_eq mark reported =>
      have longer : container.listing.body ++ lines = body ++ (rest ++ lines) := by
        rw [body_eq, List.append_assoc]
      exact .reported nonempty preamble longer mark reported

/-- The line that is fused may stand on either side of the mark. -/
theorem fuse (tracks : Tracks record container) {lines : List Line} {depth : Nat}
    (closed : container.listing.body = lines ++ [{ Line.closing with indent := depth }]) (indent : Nat) :
    Tracks record { container with listing := { container.listing with
      body := lines ++ [{ Line.reopening with indent := depth }], indent } } := by
  cases tracks with
  | unreported empty unmarked => exact .unreported empty unmarked
  | @reported front body rest nonempty preamble body_eq mark reported =>
      rw [body_eq] at closed
      rcases rest.eq_nil_or_concat with rfl | ⟨others, last, rfl⟩
      · rw [List.append_nil] at closed
        subst closed
        rw [← List.append_assoc] at reported
        have reported' := forall₂_reopens reported
        rw [List.append_assoc] at reported'
        refine .reported nonempty preamble (List.append_nil _).symm ?_ reported'
        rw [mark, List.length_append, List.length_append]
        rfl
      · rw [List.concat_eq_append, ← List.append_assoc] at closed
        obtain ⟨rfl, -⟩ := List.append_inj' closed rfl
        exact .reported nonempty preamble (List.append_assoc ..) mark reported

/-- A line of the preamble moves the mark. It counts as late if there is one. -/
theorem preamble (tracks : Tracks record container) (line : Line) :
    Tracks (if record.reports ≠ [] then
        { record with late := record.late ++ [{ line with indent := 0 }] } else record)
      { listing := container.listing.pushPreamble line, reported := container.reported.map (· + 1) } := by
  cases tracks with
  | unreported empty unmarked =>
      subst empty
      rw [unmarked]
      exact .unreported rfl rfl
  | @reported front body rest nonempty preamble body_eq mark reported =>
      rw [if_pos nonempty, mark]
      refine .reported nonempty ?_ body_eq ?_ reported
      · rw [Listing.pushPreamble, preamble, List.append_assoc]
      · rw [Listing.pushPreamble, List.length_append, Option.map_some]
        exact congrArg some (Nat.add_right_comm ..)

/-- A checkpoint reports all lines behind the mark. -/
theorem checkpoint (tracks : Tracks record container) :
    Tracks { record with
        reports := record.reports ++ [container.listing.lines.drop (container.reported.getD 0)] }
      { container with reported := some container.listing.lines.length } := by
  have nonempty (reports : List (List Line)) (report : List Line) : reports ++ [report] ≠ [] := by simp
  cases tracks with
  | unreported empty unmarked =>
      subst empty
      rw [unmarked]
      refine .reported (nonempty _ _) (List.append_nil _).symm (List.append_nil _).symm
        (congrArg some List.length_append) ?_
      show List.Forall₂ Reported (container.listing.lines ++ []) container.listing.lines
      rw [List.append_nil]
      exact List.forall₂_same.mpr fun _ _ => .same
  | @reported front body rest _ preamble body_eq mark reported =>
      have lines : container.listing.lines = container.listing.preamble ++ body ++ rest := by
        rw [Listing.lines, body_eq, List.append_assoc]
      refine .reported (nonempty _ _) preamble (List.append_nil _).symm
        (congrArg some List.length_append) ?_
      rw [List.flatten_append, mark, Option.getD_some, ← List.length_append, lines, List.drop_left, body_eq,
        ← List.append_assoc]
      refine List.rel_append reported ?_
      rw [List.flatten_singleton]
      exact List.forall₂_same.mpr fun _ _ => .same

/-- Behind a checkpoint there is nothing that is not reported. -/
theorem covers (tracks : Tracks record container)
    (marked : container.reported = some container.listing.lines.length) :
    ∃ front, container.listing.preamble = front ++ record.late ∧
      List.Forall₂ Reported record.reports.flatten (front ++ container.listing.body) := by
  cases tracks with
  | unreported _ unmarked =>
      rw [unmarked] at marked
      cases marked
  | @reported front body rest _ preamble body_eq mark reported =>
      refine ⟨front, preamble, ?_⟩
      have length := Option.some.inj (mark.symm.trans marked)
      rw [Listing.lines, body_eq, List.length_append, List.length_append] at length
      obtain rfl : rest = [] := List.length_eq_zero_iff.mp (by omega)
      rwa [body_eq, List.append_nil]

end Tracks

namespace Script

/-! ## Steps -/

/-- The container with a name. One that is not there yet is empty. -/
def container (script : Script) (name : Option String) : Container :=
  (script.containers.lookup name).getD {}

theorem lookup_putContainer_of_ne {name other : Option String} (differs : other ≠ name) (container : Container)
    (entries : List (Option String × Container)) :
    (putContainer name container entries).lookup other = entries.lookup other := by
  induction entries with
  | nil => rw [putContainer, List.lookup_cons, beq_eq_false_iff_ne.mpr differs]
  | cons entry rest ih =>
      obtain ⟨first, old⟩ := entry
      rw [putContainer]
      split
      · next same =>
          rw [List.lookup_cons, List.lookup_cons, same, beq_eq_false_iff_ne.mpr differs]
      · rw [List.lookup_cons, List.lookup_cons, ih]

@[simp]
theorem container_setActive (script : Script) (container : Container) (name : Option String) :
    (script.setActive container).container name =
      if name = script.current then container else script.container name := by
  rw [Script.container, setActive]
  split
  · next same => simp [same]
  · next differs => rw [lookup_putContainer_of_ne differs, Script.container]

end Script

open Script

namespace Tracks

variable {script next : Script} {name : Option String} {record : Record}

/-- Only the current container is written. -/
theorem write {container : Container} (tracks : Tracks record (script.container name))
    (containers : next.containers = (script.setActive container).containers)
    (written : Tracks record script.active → Tracks record container) :
    Tracks record (next.container name) := by
  have same : next.container name = (script.setActive container).container name := by
    rw [Script.container, containers, Script.container]
  rw [same, container_setActive]
  split
  · next current =>
      subst current
      exact written tracks
  · exact tracks

theorem declare {slot : Slot} (tracks : Tracks record (script.container name))
    (written : (script.declare slot).map Prod.snd = .ok next) : Tracks record (next.container name) := by
  obtain ⟨context, rfl⟩ := Script.declare_eq_ok written
  exact tracks

theorem lower {α : Type} (tracks : Tracks record (script.container name))
    (lowering : Except LoweringError (Emit α)) : Tracks record ((script.lower lowering).2.container name) := by
  cases lowering with
  | error error => exact tracks
  | ok emit => exact tracks.write rfl fun active => active.extend _ _

theorem emit (tracks : Tracks record (script.container name)) (line : Line) :
    Tracks record ((script.emit line).container name) :=
  tracks.write rfl fun active => active.extend _ _

/-- A container that is entered for the first time was empty before. -/
theorem goto {target : String} (tracks : Tracks record (script.container name))
    (written : script.goto target = .ok next) : Tracks record (next.container name) := by
  obtain ⟨closed, rfl⟩ := Script.goto_eq_ok written
  rw [container_setActive]
  split
  · next current =>
      subst current
      exact tracks
  · exact tracks

theorem openIf {all : Bool} {conditions : List Condition} (tracks : Tracks record (script.container name))
    (written : script.openIf all conditions = .ok next) : Tracks record (next.container name) := by
  obtain ⟨closed, rfl⟩ := Script.openIf_eq_ok written
  exact tracks.write rfl fun active => active.extend _ _

theorem openElse (tracks : Tracks record (script.container name)) (leveled : script.Leveled)
    (written : script.openElse = .ok next) : Tracks record (next.container name) := by
  obtain ⟨admitted, fused, result, rfl⟩ := Script.openElse_eq_ok written
  obtain ⟨lines, depth, body, result'⟩ := leveled.fuse_eq_ok admitted.2
  obtain rfl := Except.ok.inj (result.symm.trans result')
  exact tracks.write rfl fun active => active.fuse body _

theorem close (tracks : Tracks record (script.container name)) (written : script.close = .ok next) :
    Tracks record (next.container name) := by
  obtain ⟨branch, opened, rfl⟩ := Script.close_eq_ok written
  exact tracks.write rfl fun active => active.extend _ _

/-- Each step, refused or not, keeps the record of every container in step. -/
theorem apply (tracks : Tracks record (script.container name)) (leveled : script.Leveled) (step : Step) :
    Tracks (step.record name script record) ((step.apply script).container name) := by
  let motive (script : Script) : Prop := Tracks record (script.container name)
  cases step using Step.cases_line with
  | written step line writes =>
      rw [Step.record_of_line? writes, Step.apply_of_line? writes]
      exact tracks.emit line
  | declare slot => exact attempt_intro (motive := motive) tracks tracks.declare
  | lower lowering => exact tracks.lower lowering
  | compare left comparison right => exact tracks
  | goto target => exact attempt_intro (motive := motive) tracks tracks.goto
  | openIf all conditions => exact attempt_intro (motive := motive) tracks tracks.openIf
  | openElse => exact attempt_intro (motive := motive) tracks (tracks.openElse leveled)
  | close => exact attempt_intro (motive := motive) tracks tracks.close
  | preamble line =>
      show Tracks (if _ then _ else _) ((script.setActive _).container name)
      rw [container_setActive]
      by_cases current : name = script.current
      · subst current
        simp only [true_and, if_true]
        exact tracks.preamble line
      · rw [if_neg current, if_neg fun here => current here.1.symm]
        exact tracks
  | checkpoint =>
      show Tracks (if _ then _ else _) ((script.setActive _).container name)
      rw [container_setActive]
      by_cases current : name = script.current
      · subst current
        rw [if_pos rfl, if_pos rfl]
        exact tracks.checkpoint
      · rw [if_neg current, if_neg fun here => current here.symm]
        exact tracks

theorem foldl (tracks : Tracks record (script.container name)) (leveled : script.Leveled)
    (steps : List Step) :
    Tracks (recordFrom name script record steps) ((steps.foldl Step.apply script).container name) := by
  induction steps generalizing script record with
  | nil => exact tracks
  | cons step rest ih => exact ih (tracks.apply leveled step) (leveled.apply step)

end Tracks

namespace Script

theorem tracks_after (limits : Limits) (name : Option String) (steps : List Step) :
    Tracks (recordOf limits name steps) ((after limits steps).container name) := by
  have unreported : ((new limits).container name).reported = none := by
    cases name <;> rfl
  exact Tracks.foldl (.unreported rfl unreported) (leveled_new limits) steps

/-- Right behind a checkpoint, whatever was written and refused before in whatever containers, all that the
checkpoints of the current container have returned is, line by line, what stands in it, except for the preamble
lines that came behind its first checkpoint and for bodies that an `else` has followed since. -/
theorem checkpoints_report_once (limits : Limits) (steps : List Step) :
    let script := after limits (steps ++ [.checkpoint])
    let record := recordOf limits script.current (steps ++ [.checkpoint])
    ∃ front, script.listing.preamble = front ++ record.late ∧
      List.Forall₂ Reported record.reports.flatten (front ++ script.listing.body) := by
  intro script record
  have last : script = (after limits steps).checkpoint.2 := List.foldl_append
  have marked : script.active.reported = some script.active.listing.lines.length := by
    simp [last, checkpoint]
  have tracks : Tracks record (script.container script.current) := tracks_after limits _ _
  exact tracks.covers marked

/-- A line that was reported before an `else` followed, and a preamble line that no checkpoint reports. -/
example :
    let steps := [.openIf true [], .close, .checkpoint, .preamble (Fitting.callLine "f"), .openElse, .checkpoint]
    recordOf {} none steps = ⟨[[openingLine true [], Line.closing], []], [Fitting.callLine "f"]⟩ ∧
      (after {} steps).listing.body = [openingLine true [], Line.reopening] := ⟨rfl, rfl⟩

end Script

end StatScript
