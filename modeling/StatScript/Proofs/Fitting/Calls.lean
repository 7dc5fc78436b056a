import StatScript.Proofs.Fitting.Expansion
import StatScript.Proofs.Fitting.Naming

/-!
# Calls of auxiliary containers

A name is fresh if no header gives it, and calls are not looked at: a program may call what is defined
elsewhere, and an auxiliary container may get the name of that. Fitting keeps all calls of a program and
adds one for each auxiliary container, so such a container answers the program's calls of its name beside
its own.

Results:
1. `Course.calls_eq`, `Family.calls_eq`, `Groups.calls_eq`: the calls of a name, counted through a body, a
   family and a program.
2. `calls_fuseHealth`: fusing health lines keeps the calls.
3. `fitProgram_calls`: a fitted program has the calls of the program and one for each auxiliary container.
4. `fitProgram_own_call`: so an auxiliary container is called once, unless the program calls its name
   without defining it.
-/

namespace StatScript.Fitting

/-- The number of lines that call the container with a given name. -/
def calls (name : String) (lines : List Line) : Nat :=
  lines.countP fun line => line.Calls name

/-- The number of lines that call it in the lines of relocations. -/
def movedCalls (name : String) : List Relocation → Nat
  | [] => 0
  | relocation :: rest => calls name relocation.body + movedCalls name rest

/-! ## Counting -/

section Lines

variable {name : String}

@[simp]
theorem calls_append (name : String) (first second : List Line) :
    calls name (first ++ second) = calls name first + calls name second :=
  List.countP_append

theorem calls_cons (name : String) (line : Line) (rest : List Line) :
    calls name (line :: rest) = calls name [line] + calls name rest :=
  calls_append name [line] rest

theorem calls_cons_other {line : Line} (other : line.tag ≠ .call) (rest : List Line) :
    calls name (line :: rest) = calls name rest :=
  List.countP_cons_of_neg fun called => other (of_decide_eq_true called).1

theorem calls_eq_zero {lines : List Line} (others : ∀ line ∈ lines, line.tag ≠ .call) :
    calls name lines = 0 := by
  refine List.countP_eq_zero.mpr ?_
  intro line member called
  exact others line member (of_decide_eq_true called).1

@[simp]
theorem calls_callLine (name other : String) : calls name [callLine other] = [other].count name := by
  have called : (callLine other).Calls name ↔ other = name :=
    ⟨fun calls => callLine_inj.mp calls.2, fun same => ⟨rfl, callLine_inj.mpr same⟩⟩
  simp [calls, List.count_singleton, called]

@[simp]
theorem movedCalls_append (name : String) (first second : List Relocation) :
    movedCalls name (first ++ second) = movedCalls name first + movedCalls name second := by
  induction first with
  | nil => simp [movedCalls]
  | cons relocation rest ih => simp only [List.cons_append, movedCalls, ih, Nat.add_assoc]

end Lines

/-! ## Bodies -/

/-- The calls of a body are in its fitted lines and in what is moved out of it. Each relocation adds one
call of its name. -/
theorem Course.calls_eq {limits : Limits} {base : Option String} {position : Position} {room : Room}
    {supply : Supply} {lines : List Line} {fitted : Fitted}
    (course : Course limits base position room supply lines fitted) (name : String) :
    calls name fitted.lines + movedCalls name fitted.moved =
      calls name lines + (names fitted.moved).count name := by
  have kept {line : Line} {rest written : List Line} {inside named : Nat}
      (ih : calls name written + inside = calls name rest + named) :
      calls name (line :: written) + inside = calls name (line :: rest) + named := by
    rw [calls_cons name line written, calls_cons name line rest, Nat.add_assoc, ih, Nat.add_assoc]
  induction course with
  | done _ => rfl
  | endFiller _ _ ih =>
      rw [Fitted.after, List.singleton_append, calls_cons_other (by decide)]
      exact ih
  | plain _ _ _ _ _ ih => exact kept ih
  | turn _ _ _ _ _ _ _ _ _ ih => exact kept ih
  | fill _ _ _ _ _ ih =>
      rw [Fitted.afterFiller, Fitted.after, List.cons_append, calls_cons_other (by decide)]
      exact kept ih
  | moveRest _ _ _ _ =>
      simp [Fitted.afterCall, Fitted.after, movedCalls, names]
      omega
  | @moveBody _ _ _ _ line rest _ _ _ _ _ _ _ _ ih =>
      have parts : calls name (line :: rest) =
          calls name (line :: rest.takeWhile staysInBody) + calls name (rest.dropWhile staysInBody) := by
        rw [← calls_append, List.cons_append, List.takeWhile_append_dropWhile]
      rw [parts]
      simp only [Fitted.afterCall, Fitted.after, calls_append, calls_callLine, movedCalls, names,
        List.map_cons, List.count_cons, List.count_nil] at ih ⊢
      omega
  | markRest _ _ _ _ _ _ _ ih | markBody _ _ _ _ _ _ _ ih =>
      rw [Fitted.afterPlaceholder, Fitted.after, List.cons_append,
        calls_cons_other (by simp [placeholderLine])]
      exact kept ih

theorem calls_outcome (name : String) (fitted : Fitted) :
    calls name fitted.outcome.lines = calls name fitted.lines := by
  have trailing : calls name (fitted.placeholders.map trailingLine) = 0 := by
    refine calls_eq_zero ?_
    intro line member
    obtain ⟨number, -, rfl⟩ := List.mem_map.mp member
    exact nofun
  simp [Fitted.outcome, trailing]

/-! ## Families and groups -/

theorem calls_member (name : String) (member : Member) :
    calls name member.segment.lines = calls name member.fitted.lines := by
  have header : (headerLine member.relocation.name).tag ≠ .call := nofun
  exact (calls_cons_other header _).trans (calls_outcome name member.fitted)

/-- The auxiliary containers of a family hold the calls of what was pending, and one for each of them that
was not. -/
theorem Family.calls_eq {limits : Limits} {base : Option String} {supply behind : Supply}
    {source : List Line} {pending : List Relocation} {members : List Member}
    (family : Family limits base supply pending members behind) (headless : Headless source)
    (movable : ∀ queued ∈ pending, queued.Movable source) (name : String) :
    calls name ((members.map Member.segment).flatMap Segment.lines) + (names pending).count name =
      movedCalls name pending + (memberNames members).count name := by
  induction family with
  | nil => rfl
  | @cons supply behind relocation rest fitted members fits family ih =>
      subst fits
      have course := (movable relocation List.mem_cons_self).course headless limits base supply
      have first := course.calls_eq name
      have others := ih (movable_queue headless movable)
      simp only [List.map_cons, List.flatMap_cons, calls_append, calls_member, movedCalls_append, names,
        memberNames, List.map_append, List.count_append, List.count_cons, movedCalls] at first others ⊢
      omega

/-- Groups hold the calls of the containers that they were made from, and one for each auxiliary
container. -/
theorem Groups.calls_eq {limits : Limits} {supply : Supply} {containers : List Segment}
    {groups : List Group} (fitted : Groups limits supply containers groups)
    (sound : ∀ segment ∈ containers, segment.Sound) (name : String) :
    calls name ((containersOf groups).flatMap Segment.lines) =
      calls name (containers.flatMap Segment.lines) + (auxiliaryOf groups).count name := by
  induction fitted with
  | nil => rfl
  | @cons supply behind segment fitted members rest groups fits family further ih =>
      obtain ⟨⟨headless, nested⟩, others⟩ := List.forall_mem_cons.mp sound
      have course := Segment.Sound.course ⟨headless, nested⟩ fits
      have body := course.calls_eq name
      have auxiliary := family.calls_eq headless course.moved name
      have later := ih others
      simp only [containersOf, auxiliaryOf, List.flatMap_cons, List.flatMap_append, Group.containers,
        Group.original, Segment.lines, calls_append, calls_outcome, List.count_append]
        at body auxiliary later ⊢
      omega

/-! ## Programs -/

section Program

variable {limits : Limits} {lines : List Line} {outcome : Outcome}

theorem calls_bare (name : String) (lines : List Line) :
    calls name (lines.map Line.bare) = calls name lines :=
  List.countP_map

theorem calls_reindent (name : String) (lines : List Line) :
    calls name (Line.reindent lines) = calls name lines := by
  rw [← calls_bare, Line.reindent, bare_reindentFrom, calls_bare]

/-- A line that calls a container says nothing about health. -/
theorem inert_of_calls {line : Line} {name : String} (called : line.Calls name) : Inert line.text := by
  rw [called.2]
  have edged : Text.Edged ("function \"" ++ name ++ "\"") :=
    Text.Edged.append ⟨⟨'f', rfl, rfl⟩, '"', rfl, rfl⟩ name (Text.Solid.edged (by decide))
  refine ⟨unflaggedAmount?_append _ _ _ ⟨'f', rfl, rfl, by decide⟩, ?_⟩
  rw [Text.trim, callLine, Text.trim_eq_self edged, String.ofList_toList]
  intro heals
  have second := congrArg (fun text => text.toList[8]?) heals
  simp [fullHeal] at second

/-- Fusing health lines keeps the calls. -/
theorem calls_fuseHealth (name : String) (lines : List Line) :
    calls name (fuseHealth lines) = calls name lines := by
  have kept : (fuseHealth lines).filter (fun line => line.Calls name) =
      lines.filter (fun line => line.Calls name) := by
    rw [← List.filterMap_eq_filter]
    refine filterMap_fuseHealth ?_ ?_ lines
    · intro line value called
      exact inert_of_calls (of_decide_eq_true (Option.guard_eq_some_iff.mp called).2)
    · intro line amount heal
      exact Option.guard_eq_none_iff.mpr (decide_eq_false (not_calls_flagged line amount heal name))
  rw [calls, List.countP_eq_length_filter, kept, ← List.countP_eq_length_filter, calls]

/-- A fitted program has the calls of the program, and one for each auxiliary container. -/
theorem fitProgram_calls (conditionals : 1 ≤ limits.conditionals)
    (fits : fitProgram limits lines = .ok outcome) (name : String) :
    calls name outcome.lines = calls name lines + outcome.auxiliary.count name := by
  obtain ⟨nested, rfl⟩ := fitProgram_eq_ok.mp fits
  obtain ⟨groups, fitted, written, -⟩ := exists_program conditionals nested
  have source : (segments headerName? (fuseHealth lines)).flatMap Segment.lines = fuseHealth lines :=
    cut_flatten headerName? (fuseHealth lines)
  have all := fitted.calls_eq (segments_sound nested) name
  rw [source, ← lines_groups, ← auxiliary_groups, ← written, calls_fuseHealth] at all
  exact (calls_reindent name _).trans all

/-- No header of the program gives the name of an auxiliary container, and a fitted program calls that name
once more than the program does. So the only call of an auxiliary container is the one in the place of the
lines moved into it, iff the program calls no container of its name. -/
theorem fitProgram_own_call (conditionals : 1 ≤ limits.conditionals)
    (fits : fitProgram limits lines = .ok outcome) {name : String} (added : name ∈ outcome.auxiliary) :
    name ∉ containerNames lines ∧
      calls name outcome.lines = calls name lines + 1 ∧
      (calls name outcome.lines = 1 ↔ ∀ line ∈ lines, ¬ line.Calls name) := by
  obtain ⟨nodup, fresh⟩ := fitProgram_fresh conditionals fits
  have counted : calls name outcome.lines = calls name lines + 1 := by
    rw [fitProgram_calls conditionals fits, List.count_eq_one_of_mem nodup added]
  refine ⟨fresh name added, counted, ?_⟩
  have uncalled : calls name lines = 0 ↔ ∀ line ∈ lines, ¬ line.Calls name := by
    unfold calls
    simp only [List.countP_eq_zero, decide_eq_true_eq]
  rw [counted, ← uncalled]
  omega

end Program

/-- A container with a change too many. It calls `f 1`, which the program does not define. -/
def visitor : List Line :=
  [headerLine "f", change "a", callLine "f 1", change "b", change "c"]
where
  change (text : String) : Line := { text, tag := .change .player }

theorem fitProgram_visitor :
    fitProgram ⟨1, 1⟩ visitor = .ok (fitContainers ⟨1, 1⟩ visitor).reindent :=
  fitProgram_eq_ok.mpr ⟨rfl, rfl⟩

theorem auxiliary_visitor : (fitContainers ⟨1, 1⟩ visitor).reindent.auxiliary = ["f 1"] := by cbv

/-- The auxiliary container is given the name that the program calls. -/
theorem fitProgram_own_call_visitor :
    ∃ outcome, fitProgram ⟨1, 1⟩ visitor = .ok outcome ∧
      outcome.auxiliary = ["f 1"] ∧ "f 1" ∉ containerNames visitor ∧
      calls "f 1" outcome.lines = calls "f 1" visitor + 1 ∧
      (calls "f 1" outcome.lines = 1 ↔ ∀ line ∈ visitor, ¬ line.Calls "f 1") := by
  have added : "f 1" ∈ (fitContainers ⟨1, 1⟩ visitor).reindent.auxiliary := by
    rw [auxiliary_visitor]
    exact List.mem_singleton_self _
  obtain ⟨fresh, counted, own⟩ := fitProgram_own_call (by decide) fitProgram_visitor added
  exact ⟨_, fitProgram_visitor, auxiliary_visitor, fresh, counted, own⟩

/-- So two lines of the fitted program call the auxiliary container, one of them a line of the program. -/
theorem fitProgram_captures_call :
    ∃ outcome, fitProgram ⟨1, 1⟩ visitor = .ok outcome ∧ "f 1" ∈ outcome.auxiliary ∧
      (∃ line ∈ visitor, line.Calls "f 1") ∧ calls "f 1" outcome.lines = 2 := by
  refine ⟨_, fitProgram_visitor, ?_, ⟨callLine "f 1", ?_, rfl, rfl⟩, ?_⟩
  · rw [auxiliary_visitor]
    exact List.mem_singleton_self _
  · decide
  · rw [fitProgram_calls (by decide) fitProgram_visitor, auxiliary_visitor]
    decide

end StatScript.Fitting
