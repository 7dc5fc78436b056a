import StatScript.Proofs.Script.Shape

/-!
# Control statements in place

A control statement that is refused changes nothing, because the new script is only put together once nothing
can fail. It can as well be carried out in place, one change after another. Then the permission of an `else` is
spent before the line is fused, and if that failed, the permission would be gone. It never fails: what a script
remembers agrees with the depths of its containers and with their last lines, whatever else was written.

Results:
1. `Leveled.apply`, `leveled_after`: each step, refused or not, keeps the depths and the last line in agreement
   with what the script remembers, also where lines with other tags are written as they are.
2. `Control.inPlace_eq`: so a statement in place has the same outcome and leads to the same script.
3. `Leveled.foldl_applyInPlace`: and so does a history.
4. `control_refused_unchanged`: when a statement is refused, and that nothing has changed then.
-/

namespace StatScript

namespace Script

/-! ## Levels -/

/-- The depth of each container is that of its position, and an `else` may follow only a line that ends a
conditional. -/
structure Leveled (script : Script) : Prop where
  names : (script.containers.map Prod.fst).Nodup
  current : script.current ∈ script.containers.map Prod.fst
  indent : ∀ entry ∈ script.containers, entry.2.listing.indent = (script.place entry.1).depth
  elseAllowed : script.elseAllowed →
    script.branch = none ∧ ∃ lines indent, script.listing.body = lines ++ [{ Line.closing with indent }]

theorem leveled_new (limits : Limits) : (new limits).Leveled where
  names := List.pairwise_singleton _ _
  current := List.mem_cons_self
  indent := List.forall_mem_singleton.mpr rfl
  elseAllowed := nofun

section Levels

variable {script next : Script}

theorem Leveled.listing (leveled : script.Leveled) :
    script.listing.indent = (Branch.position script.branch).depth :=
  listing_of_placed (motive := fun listing position => listing.indent = position.depth) leveled.current
    leveled.indent

theorem Leveled.write {container : Container} (leveled : script.Leveled)
    (containers : next.containers = putContainer script.current container script.containers)
    (current : next.current = script.current)
    (indent : container.listing.indent = (Branch.position next.branch).depth)
    (elseAllowed : next.elseAllowed → next.branch = none ∧
      ∃ lines indent, container.listing.body = lines ++ [{ Line.closing with indent }]) : next.Leveled := by
  have names := names_write containers leveled.current
  refine ⟨names ▸ leveled.names, ?_, ?_, ?_⟩
  · rw [names, current]
    exact leveled.current
  · exact placed_write (motive := fun listing position => listing.indent = position.depth) containers
      leveled.names leveled.indent current indent
  · rw [listing_write containers current]
    exact elseAllowed

theorem Leveled.withdrawElse (leveled : script.Leveled) : script.withdrawElse.Leveled :=
  ⟨leveled.names, leveled.current, leveled.indent, nofun⟩

theorem Leveled.declare {slot : Slot} (leveled : script.Leveled)
    (written : (script.declare slot).map Prod.snd = .ok next) : next.Leveled := by
  obtain ⟨context, rfl⟩ := declare_eq_ok written
  exact ⟨leveled.names, leveled.current, leveled.indent, leveled.elseAllowed⟩

theorem Leveled.lower {α : Type} (leveled : script.Leveled)
    (lowering : Except LoweringError (Emit α)) : (script.lower lowering).2.Leveled := by
  cases lowering with
  | error error => exact leveled.withdrawElse
  | ok emit => exact leveled.withdrawElse.write rfl rfl leveled.listing nofun

theorem Leveled.emit (leveled : script.Leveled) (line : Line) : (script.emit line).Leveled :=
  leveled.withdrawElse.write rfl rfl leveled.listing nofun

/-- The preamble stands in front of the body, so the last line stays. -/
theorem Leveled.preamble (leveled : script.Leveled) (line : Line) : (script.preamble line).Leveled :=
  leveled.write rfl rfl leveled.listing leveled.elseAllowed

theorem Leveled.checkpoint (leveled : script.Leveled) : script.checkpoint.2.Leveled :=
  leveled.write rfl rfl leveled.listing leveled.elseAllowed

theorem Leveled.goto {name : String} (leveled : script.Leveled)
    (written : script.goto name = .ok next) : next.Leveled := by
  have known := current_goto written
  have indent := placed_goto (motive := fun listing position => listing.indent = position.depth) written
    leveled.names leveled.indent rfl
  obtain ⟨closed, rfl⟩ := goto_eq_ok written
  exact ⟨nodup_names_putContainer _ leveled.names, known, indent, nofun⟩

theorem Leveled.openIf {all : Bool} {conditions : List Condition} (leveled : script.Leveled)
    (written : script.openIf all conditions = .ok next) : next.Leveled := by
  obtain ⟨closed, rfl⟩ := openIf_eq_ok written
  refine leveled.write rfl rfl ?_ nofun
  have indent := leveled.listing
  rw [closed] at indent
  exact congrArg (· + 1) indent

/-- The line to be fused ends a conditional, at the depth of the container. -/
theorem Leveled.fuse_eq_ok (leveled : script.Leveled) (allowed : script.elseAllowed) :
    ∃ lines depth, script.listing.body = lines ++ [{ Line.closing with indent := depth }] ∧
      script.listing.fuse " else \x7b" .elseOpen =
        .ok { script.listing with body := lines ++ [{ Line.reopening with indent := depth }] } := by
  obtain ⟨closed, lines, depth, body⟩ := leveled.elseAllowed allowed
  have indent := leveled.listing
  rw [closed] at indent
  exact ⟨lines, depth, body, Listing.fuse_closing body indent⟩

theorem Leveled.openElse (leveled : script.Leveled) (written : script.openElse = .ok next) :
    next.Leveled := by
  obtain ⟨admitted, fused, result, rfl⟩ := openElse_eq_ok written
  obtain ⟨lines, depth, -, result'⟩ := leveled.fuse_eq_ok admitted.2
  obtain rfl := Except.ok.inj (result.symm.trans result')
  have indent := leveled.listing
  rw [admitted.1] at indent
  exact leveled.write rfl rfl (congrArg (· + 1) indent) nofun

theorem Leveled.close (leveled : script.Leveled) (written : script.close = .ok next) :
    next.Leveled := by
  obtain ⟨branch, opened, rfl⟩ := close_eq_ok written
  refine leveled.write rfl rfl ?_ fun allowed => ?_
  · have indent := leveled.listing
    rw [opened] at indent
    cases branch <;> exact congrArg (· - 1) indent
  · obtain rfl : branch = .first := of_decide_eq_true allowed
    exact ⟨rfl, _, _, rfl⟩

theorem Leveled.apply (leveled : script.Leveled) (step : Step) : (step.apply script).Leveled := by
  cases step using Step.cases_line with
  | written step line writes =>
      rw [Step.apply_of_line? writes]
      exact leveled.emit line
  | declare slot => exact attempt_intro (motive := Leveled) leveled leveled.declare
  | lower lowering => exact leveled.lower lowering
  | compare left comparison right => exact leveled.withdrawElse
  | goto name => exact attempt_intro (motive := Leveled) leveled leveled.goto
  | openIf all conditions => exact attempt_intro (motive := Leveled) leveled leveled.openIf
  | openElse => exact attempt_intro (motive := Leveled) leveled leveled.openElse
  | close => exact attempt_intro (motive := Leveled) leveled leveled.close
  | preamble line => exact leveled.preamble line
  | checkpoint => exact leveled.checkpoint

end Levels

theorem leveled_after (limits : Limits) (steps : List Step) : (after limits steps).Leveled :=
  List.foldlRecOn steps Step.apply (leveled_new limits) fun _ leveled step _ => leveled.apply step

/-! ## In place -/

/-- Enters a container, one change after another. -/
def gotoInPlace (script : Script) (name : String) : Except StructureError Unit × Script :=
  match script.branch with
  | some _ =>
      (.error (.headerInsideConditional script.listing.size (Fitting.headerLine name).text), script)
  | none =>
      let script := script.withdrawElse
      let script := { script with current := some name }
      (.ok (), script.setActive script.active)

/-- Opens a conditional, one change after another. -/
def openIfInPlace (script : Script) (all : Bool) (conditions : List Condition) :
    Except StructureError Unit × Script :=
  let line := openingLine all conditions
  match script.branch with
  | some _ => (.error (.nestedConditional script.listing.size line.text), script)
  | none =>
      let script := script.setListing (script.listing.push line)
      let script := script.setListing script.listing.deepen
      let script := { script with branch := some .first }
      (.ok (), script.withdrawElse)

/-- Opens a second body, one change after another. The permission is spent before the line is fused, and stays
spent if that fails. -/
def openElseInPlace (script : Script) : Except StructureError Unit × Script :=
  if script.branch = none ∧ script.elseAllowed then
    let script := script.withdrawElse
    match script.listing.fuse " else \x7b" .elseOpen with
    | .error error => (.error error, script)
    | .ok listing =>
        let script := script.setListing listing
        let script := script.setListing script.listing.deepen
        (.ok (), { script with branch := some .second })
  else (.error (.elseWithoutIf script.listing.size), script)

/-- Closes the open body, one change after another. -/
def closeInPlace (script : Script) : Except StructureError Unit × Script :=
  match script.branch with
  | none => (.error (.unmatchedClose script.listing.size Line.closing.text), script)
  | some branch =>
      let tag := if branch = .first then .close else .elseClose
      let script := { script with branch := none }
      let script := script.setListing script.listing.raise
      let script := script.setListing (script.listing.push { Line.closing with tag })
      (.ok (), { script with elseAllowed := branch = .first })

/-- The outcome of a statement, with the script that it leads to or the old one where it is refused. -/
def settled (script : Script) : Except StructureError Script → Except StructureError Unit × Script
  | .ok next => (.ok (), next)
  | .error error => (.error error, script)

section InPlace

variable (script : Script)

theorem gotoInPlace_eq (name : String) : script.gotoInPlace name = script.settled (script.goto name) := by
  unfold gotoInPlace Script.goto
  cases script.branch <;> rfl

theorem openIfInPlace_eq (all : Bool) (conditions : List Condition) :
    script.openIfInPlace all conditions = script.settled (script.openIf all conditions) := by
  unfold openIfInPlace Script.openIf
  cases script.branch with
  | some branch => rfl
  | none =>
      simp only [listing_setListing, setListing_setListing]
      rfl

theorem closeInPlace_eq : script.closeInPlace = script.settled script.close := by
  unfold closeInPlace Script.close
  cases script.branch with
  | none => rfl
  | some branch =>
      simp only [listing_setListing, setListing_setListing]
      rfl

variable {script}

/-- Where the permission is spent, the line is fused. -/
theorem Leveled.openElseInPlace_eq (leveled : script.Leveled) :
    script.openElseInPlace = script.settled script.openElse := by
  unfold openElseInPlace Script.openElse
  by_cases admitted : script.branch = none ∧ script.elseAllowed
  · obtain ⟨lines, depth, -, fused⟩ := leveled.fuse_eq_ok admitted.2
    have spent : script.withdrawElse.listing.fuse " else \x7b" .elseOpen =
        .ok { script.listing with body := lines ++ [{ Line.reopening with indent := depth }] } := fused
    rw [if_pos admitted, if_pos admitted, fused]
    simp only [spent, listing_setListing, setListing_setListing]
    rfl
  · rw [if_neg admitted, if_neg admitted]
    rfl

end InPlace

/-- A control statement. -/
inductive Control where
  | goto (name : String)
  | openIf (all : Bool) (conditions : List Condition)
  | openElse
  | close

namespace Control

/-- The script that a statement leads to, unless it is refused. -/
def statement (script : Script) : Control → Except StructureError Script
  | goto name => script.goto name
  | openIf all conditions => script.openIf all conditions
  | openElse => script.openElse
  | close => script.close

/-- A statement in place. What has changed when it is refused stays changed. -/
def inPlace (script : Script) : Control → Except StructureError Unit × Script
  | goto name => script.gotoInPlace name
  | openIf all conditions => script.openIfInPlace all conditions
  | openElse => script.openElseInPlace
  | close => script.closeInPlace

/-- When a statement is in order. -/
def Admitted (script : Script) : Control → Prop
  | goto _ | openIf _ _ => script.branch = none
  | openElse => script.branch = none ∧ script.elseAllowed
  | close => script.branch ≠ none

variable {script : Script}

/-- In place, a statement has the same outcome, and has changed nothing if it is refused. -/
theorem inPlace_eq (leveled : script.Leveled) (control : Control) :
    control.inPlace script = script.settled (control.statement script) := by
  cases control with
  | goto name => exact script.gotoInPlace_eq name
  | openIf all conditions => exact script.openIfInPlace_eq all conditions
  | openElse => exact leveled.openElseInPlace_eq
  | close => exact script.closeInPlace_eq

/-- A statement is refused just where it is not in order. -/
theorem statement_eq_ok_iff (leveled : script.Leveled) (control : Control) :
    (∃ next, control.statement script = .ok next) ↔ control.Admitted script := by
  cases control with
  | goto name =>
      show (∃ next, script.goto name = .ok next) ↔ script.branch = none
      unfold Script.goto
      cases script.branch with
      | none => exact iff_of_true ⟨_, rfl⟩ rfl
      | some branch => exact iff_of_false nofun nofun
  | openIf all conditions =>
      show (∃ next, script.openIf all conditions = .ok next) ↔ script.branch = none
      unfold Script.openIf
      cases script.branch with
      | none => exact iff_of_true ⟨_, rfl⟩ rfl
      | some branch => exact iff_of_false nofun nofun
  | openElse =>
      show (∃ next, script.openElse = .ok next) ↔ script.branch = none ∧ script.elseAllowed
      unfold Script.openElse
      by_cases admitted : script.branch = none ∧ script.elseAllowed
      · obtain ⟨lines, depth, -, fused⟩ := leveled.fuse_eq_ok admitted.2
        rw [if_pos admitted, fused]
        exact iff_of_true ⟨_, rfl⟩ admitted
      · rw [if_neg admitted]
        exact iff_of_false nofun admitted
  | close =>
      show (∃ next, script.close = .ok next) ↔ script.branch ≠ none
      unfold Script.close
      cases script.branch with
      | none => exact iff_of_false nofun fun opened => opened rfl
      | some branch => exact iff_of_true ⟨_, rfl⟩ nofun

end Control

/-! ## Histories in place -/

/-- The script behind a step, with control statements carried out in place. -/
def Step.applyInPlace (script : Script) : Step → Script
  | goto name => (script.gotoInPlace name).2
  | openIf all conditions => (script.openIfInPlace all conditions).2
  | openElse => script.openElseInPlace.2
  | close => script.closeInPlace.2
  | step => step.apply script

/-- The script behind a history, with control statements carried out in place. -/
def afterInPlace (limits : Limits) (steps : List Step) : Script :=
  steps.foldl Step.applyInPlace (new limits)

theorem Control.inPlace_snd {script : Script} (leveled : script.Leveled) (control : Control) :
    (control.inPlace script).2 = script.attempt (control.statement script) := by
  rw [control.inPlace_eq leveled]
  cases control.statement script <;> rfl

theorem Step.applyInPlace_eq {script : Script} (leveled : script.Leveled) (step : Step) :
    step.applyInPlace script = step.apply script := by
  cases step with
  | goto name => exact Control.inPlace_snd leveled (.goto name)
  | openIf all conditions => exact Control.inPlace_snd leveled (.openIf all conditions)
  | openElse => exact Control.inPlace_snd leveled .openElse
  | close => exact Control.inPlace_snd leveled .close
  | declare | lower | compare | call | exit | cancel | comment | note | maxHealth | fullHeal | emit
  | preamble | checkpoint => rfl

theorem Leveled.foldl_applyInPlace {script : Script} (leveled : script.Leveled) (steps : List Step) :
    steps.foldl Step.applyInPlace script = steps.foldl Step.apply script := by
  induction steps generalizing script with
  | nil => rfl
  | cons step rest ih =>
      rw [List.foldl_cons, List.foldl_cons, Step.applyInPlace_eq leveled]
      exact ih (leveled.apply step)

/-- Behind any history, whatever lines were written as they are and whatever was refused, a control statement
that is carried out in place is refused just where it is not in order, and then the whole script is as it was.
Otherwise it leads where the statement leads. So an `else` that is permitted while no conditional is open is
always written. -/
theorem control_refused_unchanged (limits : Limits) (steps : List Step) (control : Control) :
    let script := afterInPlace limits steps
    script = after limits steps ∧
      match control.inPlace script with
      | (.error error, later) =>
          control.statement script = .error error ∧ ¬control.Admitted script ∧ later = script
      | (.ok _, later) => control.statement script = .ok later ∧ control.Admitted script := by
  intro script
  have same : script = after limits steps := (leveled_new limits).foldl_applyInPlace steps
  have leveled : script.Leveled := same ▸ leveled_after limits steps
  refine ⟨same, ?_⟩
  have admitted := control.statement_eq_ok_iff leveled
  rw [control.inPlace_eq leveled]
  cases written : control.statement script with
  | error error =>
      rw [written] at admitted
      refine ⟨rfl, fun ordered => ?_, rfl⟩
      obtain ⟨next, contrary⟩ := admitted.mpr ordered
      cases contrary
  | ok next =>
      rw [written] at admitted
      exact ⟨rfl, admitted.mp ⟨next, rfl⟩⟩

end Script

end StatScript
