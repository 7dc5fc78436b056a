import StatScript.Proofs.Fitting.Exits
import StatScript.Proofs.Fitting.Runtime

/-!
# Resumption

Lines that were moved out are called where they stood, and the container goes on behind the call. This is
what happened before, unless the lines were moved out of a conditional and an exit among them ends the called
container only.

Results:
1. `Course.resumes`: a fitted body runs as the body did, if the calls of moved lines do what these lines did.
2. `Family.resumes`: the auxiliary containers of a family do what the lines moved into them did.
3. `fitProgram_resumes`: fitting keeps the runs of a program in which exits fit.
-/

namespace StatScript.Fitting

/-! ## One body -/

section Body

variable {State : Type} {runtime : Runtime State} {f g : Handler State} {limits : Limits}
  {base : Option String} {position : Position} {room : Room} {supply : Supply} {lines : List Line}
  {fitted : Fitted}

/-- The call of moved lines does what the lines do. -/
def Replays (runtime : Runtime State) (f g : Handler State) (relocation : Relocation) : Prop :=
  ∀ state result, runtime.runLines f false state relocation.body = some result →
    g (callLine relocation.name).text state = some result

theorem runLines_callLine {name : String} {state : State} {rest : List Line}
    {passage later : Passage State} (called : g (callLine name).text state = some passage)
    (ran : runtime.runLines g false passage.state rest = some later) :
    runtime.runLines g false state (callLine name :: rest) = some (later.behind passage.changes) := by
  refine (Runtime.runLines_act rfl).mpr (.inr ⟨passage, later, ?_, ran, rfl⟩)
  exact Option.map_eq_some_iff.mpr ⟨passage, called, rfl⟩

/-- What a body is skipped for ends with it. -/
theorem skips_eq_false {after : Position} {next : Room} {line : Line} {skipping : Bool} {state : State}
    (turns : ¬line.tag.isPlain) (header : line.tag ≠ .header)
    (stepped : position.step line.tag = some after) (stands : next.StandsAt after)
    (outside : next.place ≠ .conditional) : runtime.skips skipping line state = false := by
  obtain rfl := stands.eq_outside outside
  cases opens : line.tag.opens with
  | true => exact absurd (step_opens opens stepped).2 nofun
  | false =>
      have ends := Tag.closesBody_of_not_isPlain turns header opens
      have closes := (step_closesBody ends stepped).2.mp rfl
      unfold Runtime.skips
      cases tag : line.tag <;> simp_all [Tag.closes]

/-- A fitted body runs as the body did, if the calls of moved lines do what these lines did and exits fit. -/
theorem Course.resumes (course : Course limits base position room supply lines fitted)
    (named : base ≠ none) (agrees : ∀ line ∈ lines, Runtime.Agrees f g line)
    (replays : ∀ relocation ∈ fitted.moved, Replays runtime f g relocation) {body : Option Tally}
    (exits : ExitsFit limits body lines) (counts : room.Counts body) {skipping : Bool}
    (running : room.place ≠ .conditional → skipping = false) {state : State} {result : Passage State}
    (ran : runtime.runLines f skipping state lines = some result) :
    runtime.runLines g skipping state fitted.lines = some result := by
  induction course generalizing body skipping state result with
  | done _ => exact ran
  | endFiller place _ ih =>
      obtain rfl := running (by rw [place]; exact nofun)
      exact ih agrees replays exits nofun (fun _ => rfl) ran
  | plain plain verdict place _ _ ih =>
      obtain ⟨first, others⟩ := List.forall_mem_cons.mp agrees
      refine Runtime.runLines_plain plain first (fun ran => ?_) ran
      exact ih others replays exits.2 (counts.keep verdict) (by rw [place]; exact running) ran
  | turn turns header stepped verdict _ _ _ stands _ ih =>
      show runtime.runLines g skipping state (_ :: _) = some result
      rw [Runtime.runLines_turn turns] at ran ⊢
      exact ih (List.forall_mem_cons.mp agrees).2 replays exits.2 (counts.keep verdict)
        (skips_eq_false turns header stepped stands) ran
  | @fill room next supply line rest fitted kind tag place _ filled _ ih =>
      obtain rfl := running (by rw [place]; exact nofun)
      obtain ⟨first, others⟩ := List.forall_mem_cons.mp agrees
      have entered : runtime.skips false fillerLine state = false := by
        show (!runtime.truth fillerLine.text state) = false
        rw [runtime.truth_filler]
        rfl
      show runtime.runLines g false state (fillerLine :: line :: fitted.lines) = some result
      rw [Runtime.runLines_turn (by decide), entered]
      refine Runtime.runLines_plain (Tag.isPlain_change tag) first (fun ran => ?_) ran
      exact ih others replays exits.2 (by rw [filled]; exact nofun) (fun _ => rfl) ran
  | moveRest _ place _ _ =>
      obtain rfl := running (by rw [place]; exact nofun)
      have called := (List.forall_mem_cons.mp replays).1 state result ran
      rw [← result.behind_nothing]
      exact runLines_callLine called rfl
  | @moveBody position room next supply line rest name fitted _ place _ plain verdict _ ih =>
      obtain ⟨first, others⟩ := List.forall_mem_cons.mp replays
      obtain ⟨exitless, body', exits', counts'⟩ := exits.divide counts place plain verdict
      have agrees' : ∀ line ∈ rest.dropWhile staysInBody, Runtime.Agrees f g line := fun line member =>
        agrees line (List.mem_cons_of_mem _ ((List.dropWhile_sublist _).subset member))
      have split : line :: rest =
          (line :: rest.takeWhile staysInBody) ++ rest.dropWhile staysInBody := by
        rw [List.cons_append, List.takeWhile_append_dropWhile]
      rw [split] at ran
      show runtime.runLines g skipping state (callLine _ :: fitted.lines) = some result
      cases skipping with
      | true =>
          rw [Runtime.runLines_skipped_append plain] at ran
          rw [Runtime.runLines_skipped rfl]
          exact ih agrees' others exits' counts' (fun outside => absurd place outside) ran
      | false =>
          obtain ⟨passage, later, inner, outer, rfl⟩ :=
            Runtime.runLines_append (fun moved member => ⟨plain moved member, exitless moved member⟩) ran
          exact runLines_callLine (first state passage inner)
            (ih agrees' others exits' counts' (fun _ => rfl) outer)
  | markRest anonymous _ _ _ _ _ _ _ => exact absurd anonymous named
  | markBody anonymous _ _ _ _ _ _ _ => exact absurd anonymous named

/-- Exits fit in what is moved out, too. -/
theorem Course.exitsFit_moved (course : Course limits base position room supply lines fitted)
    (named : base ≠ none) {body : Option Tally} (exits : ExitsFit limits body lines)
    (counts : room.Counts body) :
    ∀ relocation ∈ fitted.moved, ExitsFit limits none relocation.body := by
  induction course generalizing body with
  | done _ => exact nofun
  | endFiller _ _ ih => exact ih exits nofun
  | plain _ verdict _ _ _ ih => exact ih exits.2 (counts.keep verdict)
  | turn _ _ _ verdict _ _ _ _ _ ih => exact ih exits.2 (counts.keep verdict)
  | fill _ _ _ filled _ ih => exact ih exits.2 (by rw [filled]; exact nofun)
  | moveRest _ _ _ _ => exact List.forall_mem_cons.mpr ⟨exits.outside, nofun⟩
  | moveBody _ place _ plain verdict _ ih =>
      obtain ⟨-, body', exits', counts'⟩ := exits.divide counts place plain verdict
      exact List.forall_mem_cons.mpr ⟨exitsFit_plain plain, ih exits' counts'⟩
  | markRest anonymous _ _ _ _ _ _ _ => exact absurd anonymous named
  | markBody anonymous _ _ _ _ _ _ _ => exact absurd anonymous named

/-- A fitted container with a name runs as its lines did. -/
theorem Course.resumes_start (course : Course limits base .outside {} supply lines fitted)
    (named : base ≠ none) (agrees : ∀ line ∈ lines, Runtime.Agrees f g line)
    (replays : ∀ relocation ∈ fitted.moved, Replays runtime f g relocation)
    (exits : ExitsFit limits none lines) {state : State} {result : Passage State}
    (ran : runtime.runLines f false state lines = some result) :
    runtime.runLines g false state fitted.outcome.lines = some result := by
  rw [Fitted.outcome, course.placeholders_eq_nil named, List.map_nil, List.append_nil]
  exact course.resumes named agrees replays exits (Room.counts_start none) (fun _ => rfl) ran

end Body

/-! ## Auxiliary containers -/

/-- The auxiliary containers of a family do what the lines moved into them did. Each of them may call the
ones behind it, so their number bounds the depth. -/
theorem Family.resumes {State : Type} {runtime : Runtime State} {f : Handler State}
    {program : List Segment} {depth : Nat} {limits : Limits} {base : Option String}
    {supply behind : Supply} {source : List Line} {pending : List Relocation} {members : List Member}
    (family : Family limits base supply pending members behind) (named : base ≠ none)
    (headless : Headless source) (movable : ∀ queued ∈ pending, queued.Movable source)
    (exits : ∀ queued ∈ pending, ExitsFit limits none queued.body)
    (agrees : ∀ line ∈ source, ∀ more, Runtime.Agrees f (runtime.call program (depth + more)) line)
    (found : ∀ member ∈ members, callee? program (callLine member.relocation.name).text =
      some (member.fitted.outcome.lines.map Line.bare)) :
    ∀ queued ∈ pending, Replays runtime f (runtime.call program (depth + members.length)) queued := by
  induction family with
  | nil => exact nofun
  | @cons supply behind relocation rest fitted members fits family ih =>
      obtain ⟨firstFound, othersFound⟩ := List.forall_mem_cons.mp found
      obtain ⟨firstExits, othersExits⟩ := List.forall_mem_cons.mp exits
      have first := movable relocation List.mem_cons_self
      have course := first.course headless limits base supply
      rw [← fits] at course
      have replays := ih (fits ▸ movable_queue headless movable)
        (List.forall_mem_append.mpr ⟨othersExits,
          course.exitsFit_moved named firstExits (Room.counts_start none)⟩)
        othersFound
      obtain ⟨others, moved⟩ := List.forall_mem_append.mp replays
      refine List.forall_mem_cons.mpr ⟨fun state result ran => ?_, fun queued member state result ran => ?_⟩
      · rw [List.length_cons, ← Nat.add_assoc, Runtime.call_succ firstFound, Runtime.runLines_bare]
        exact course.resumes_start named (fun line member => agrees line (first.subset member) _) moved
          firstExits ran
      · exact Runtime.call_mono (Nat.le_succ _) (others queued member state result ran)

theorem Groups.exists_family {limits : Limits} {supply : Supply} {containers : List Segment}
    {groups : List Group} (fitted : Groups limits supply containers groups) {group : Group}
    (listed : group ∈ groups) :
    ∃ supply behind, group.fitted = fit limits group.segment.name {} supply group.segment.body ∧
      Family limits group.segment.name group.fitted.supply group.fitted.moved group.members behind := by
  induction fitted with
  | nil => cases listed
  | cons fits family _ ih =>
      rcases List.mem_cons.mp listed with rfl | listed
      · exact ⟨_, _, fits, family⟩
      · exact ih listed

/-! ## Programs -/

theorem answers_iff {name : String} {segment : Segment} :
    segment.answers (callLine name).text ↔ segment.name = some name := by
  rw [Segment.answers]
  cases segment.name with
  | none => simp
  | some other => simp [callLine_inj]

/-- The group whose container a call runs. -/
def calledGroup? (groups : List Group) (text : String) : Option Group :=
  groups.find? fun group => group.segment.answers text

section Program

variable {State : Type} {runtime : Runtime State} {limits : Limits} {lines : List Line}
  {groups : List Group} {outcome : Outcome} {text : String}

theorem callee?_segments (groups : List Group) (text : String) :
    callee? (groups.map fun group => group.segment.bare) text =
      (calledGroup? groups text).map fun group => group.segment.body.map Line.bare := by
  rw [callee?, calledGroup?, List.find?_map, Option.map_map]
  rfl

/-- A call that names no auxiliary container runs the same container as before. -/
theorem callee?_original (other : ∀ name ∈ auxiliaryOf groups, (callLine name).text ≠ text) :
    callee? ((containersOf groups).map Segment.bare) text =
      (calledGroup? groups text).map fun group => group.fitted.outcome.lines.map Line.bare := by
  have found : (containersOf groups).find? (Segment.answers text) =
      (calledGroup? groups text).map Group.original := by
    induction groups with
    | nil => rfl
    | cons group rest ih =>
        rw [auxiliaryOf, List.flatMap_cons, List.forall_mem_append] at other
        have none : (group.members.map Member.segment).find? (Segment.answers text) = none := by
          refine List.find?_eq_none.mpr fun segment listed => ?_
          obtain ⟨member, belongs, rfl⟩ := List.mem_map.mp listed
          simpa [Member.segment, Segment.answers] using
            other.1 _ (List.mem_map.mpr ⟨member, belongs, rfl⟩)
        have same : group.original.answers text = group.segment.answers text := rfl
        rw [containersOf, List.flatMap_cons, List.find?_append, Group.containers, List.find?_cons,
          calledGroup?, List.find?_cons, same]
        cases group.segment.answers text with
        | true => rfl
        | false =>
            rw [none, Option.none_or]
            exact ih other.2
  rw [callee?, List.find?_map, Option.map_map]
  show ((containersOf groups).find? (Segment.answers text)).map _ = _
  rw [found, Option.map_map]
  rfl

/-- The call of an auxiliary container runs it. -/
theorem callee?_auxiliary (nodup : (auxiliaryOf groups).Nodup)
    (fresh : ∀ group ∈ groups, ∀ name ∈ group.segment.name, name ∉ auxiliaryOf groups)
    {member : Member} (listed : member ∈ groups.flatMap Group.members) :
    callee? ((containersOf groups).map Segment.bare) (callLine member.relocation.name).text =
      some (member.fitted.outcome.lines.map Line.bare) := by
  have named : member.relocation.name ∈ auxiliaryOf groups := by
    rw [← memberNames_flatMap]
    exact List.mem_map.mpr ⟨member, listed, rfl⟩
  have unique (segment) (inside : segment ∈ containersOf groups)
      (answers : segment.answers (callLine member.relocation.name).text) :
      segment = member.segment := by
    have name := answers_iff.mp answers
    obtain ⟨group, belongs, inside⟩ := List.mem_flatMap.mp inside
    rcases List.mem_cons.mp inside with rfl | inside
    · exact absurd named (fresh group belongs _ name)
    · obtain ⟨other, among, rfl⟩ := List.mem_map.mp inside
      rw [← memberNames_flatMap] at nodup
      have first := Member.find_eq nodup (List.mem_flatMap.mpr ⟨group, belongs, among⟩)
      rw [show other.relocation.name = member.relocation.name from Option.some.inj name,
        Member.find_eq nodup listed] at first
      rw [Option.some.inj first]
  have inside : member.segment ∈ containersOf groups := by
    obtain ⟨group, belongs, inside⟩ := List.mem_flatMap.mp listed
    refine List.mem_flatMap.mpr ⟨group, belongs, List.mem_cons_of_mem _ ?_⟩
    exact List.mem_map.mpr ⟨member, inside, rfl⟩
  rw [callee?, List.find?_map, Option.map_map]
  show ((containersOf groups).find? (Segment.answers (callLine member.relocation.name).text)).map _ = _
  cases found : (containersOf groups).find? (Segment.answers (callLine member.relocation.name).text) with
  | none =>
      have silent := List.find?_eq_none.mp found _ inside
      exact absurd (answers_iff.mpr rfl) silent
  | some segment =>
      rw [unique segment (List.mem_of_find?_eq_some found) (List.find?_some found)]
      rfl

theorem length_members_le {group : Group} (listed : group ∈ groups) :
    group.members.length ≤ (auxiliaryOf groups).length := by
  have sublist : (memberNames group.members).Sublist (auxiliaryOf groups) :=
    List.sublist_flatten_of_mem (List.mem_map.mpr ⟨group, listed, rfl⟩)
  have le := sublist.length_le
  rwa [memberNames, List.length_map] at le

/-- The container of a group runs as it did before, with the calls of its auxiliary containers below those
that it had. -/
theorem Groups.resumes {supply : Supply} {containers : List Segment} {f : Handler State}
    {program : List Segment} {depth : Nat} (fitted : Groups limits supply containers groups)
    {group : Group} (listed : group ∈ groups) (named : group.segment.name ≠ none)
    (sound : group.segment.Sound) (exits : ExitsFit limits none group.segment.body)
    (agrees : ∀ line ∈ group.segment.body, ∀ more,
      Runtime.Agrees f (runtime.call program (depth + more)) line)
    (found : ∀ member ∈ group.members, callee? program (callLine member.relocation.name).text =
      some (member.fitted.outcome.lines.map Line.bare))
    {state : State} {result : Passage State}
    (ran : runtime.runLines f false state group.segment.body = some result) :
    runtime.runLines (runtime.call program (depth + group.members.length)) false state
      group.fitted.outcome.lines = some result := by
  obtain ⟨supply, behind, fits, family⟩ := fitted.exists_family listed
  have course := course_start limits group.segment.name supply sound.1 sound.2
  rw [← fits] at course
  have replays := family.resumes named sound.1 course.moved
    (course.exitsFit_moved named exits (Room.counts_start none)) agrees found
  exact course.resumes_start named (fun line member => agrees line member _) replays exits ran

/-- A call that names no auxiliary container does what it did before, at most as many times deeper as there
are auxiliary containers. -/
theorem call_resumes
    (fitted : Groups limits (programSupply lines) (segments headerName? lines) groups)
    (nested : Nested .outside lines) (nodup : (auxiliaryOf groups).Nodup)
    (fresh : ∀ group ∈ groups, ∀ name ∈ group.segment.name, name ∉ auxiliaryOf groups)
    (exits : ∀ segment ∈ segments headerName? lines, ExitsFit limits none segment.body)
    (apart : ∀ line ∈ lines, ∀ name ∈ auxiliaryOf groups, ¬line.Calls name) {depth : Nat}
    (other : ∀ name ∈ auxiliaryOf groups, (callLine name).text ≠ text) {state : State}
    {result : Passage State}
    (ran : runtime.call (groups.map fun group => group.segment.bare) depth text state = some result) :
    runtime.call ((containersOf groups).map Segment.bare) (depth * ((auxiliaryOf groups).length + 1))
      text state = some result := by
  induction depth generalizing text state result with
  | zero => cases ran
  | succ depth ih =>
      rw [Nat.succ_mul, ← Nat.add_assoc]
      have before := callee?_segments groups text
      have after := callee?_original other
      cases called : calledGroup? groups text with
      | none =>
          rw [called, Option.map_none] at before after
          rw [Runtime.call, before] at ran
          rw [Runtime.call, after]
          exact ran
      | some group =>
          rw [called, Option.map_some] at before after
          rw [Runtime.call_succ before, Runtime.runLines_bare] at ran
          rw [Runtime.call_succ after, Runtime.runLines_bare]
          have listed : group ∈ groups := List.mem_of_find?_eq_some called
          have container : group.segment ∈ segments headerName? lines := by
            rw [← fitted.segments]
            exact List.mem_map.mpr ⟨group, listed, rfl⟩
          have named : group.segment.name ≠ none := fun none => by
            have answers := List.find?_some called
            simp [Segment.answers, none] at answers
          have agrees : ∀ line ∈ group.segment.body, ∀ more, Runtime.Agrees
              (runtime.call (groups.map fun group => group.segment.bare) depth)
              (runtime.call ((containersOf groups).map Segment.bare)
                (depth * ((auxiliaryOf groups).length + 1) + more)) line := by
            intro line member more tag state result ran
            refine Runtime.call_mono (Nat.le_add_right _ _) (ih (fun name auxiliary same => ?_) ran)
            exact apart line (segments_subset container member) name auxiliary ⟨tag, same.symm⟩
          have found (member) (belongs : member ∈ group.members) :=
            callee?_auxiliary nodup fresh (List.mem_flatMap.mpr ⟨group, listed, belongs⟩)
          have ran' := fitted.resumes listed named (segments_sound nested _ container)
            (exits _ container) agrees found ran
          refine Runtime.runLines_mono (fun _ _ _ _ _ called => ?_) ran'
          exact Runtime.call_mono (Nat.add_le_add_left (length_members_le listed) _) called

/-- The names of the containers of a program are not given again. -/
theorem fresh_names
    (fitted : Groups limits (programSupply lines) (segments headerName? lines) groups)
    (nested : Nested .outside lines) :
    (auxiliaryOf groups).Nodup ∧
      ∀ group ∈ groups, ∀ name ∈ group.segment.name, name ∉ auxiliaryOf groups := by
  obtain ⟨behind, fresh⟩ := fitted.fresh (segments_sound nested)
  refine ⟨fresh.nodup, fun group listed name named auxiliary => fresh.new name auxiliary ?_⟩
  refine List.mem_filterMap.mpr ⟨group.segment, ?_, named⟩
  rw [← fitted.segments]
  exact List.mem_map.mpr ⟨group, listed, rfl⟩

/-- Fitting keeps the runs of a program in which exits fit: a container of the program makes the same changes
and ends in the same state, with calls at most as many times deeper as there are containers added. -/
theorem fitProgram_resumes (conditionals : 1 ≤ limits.conditionals)
    (fits : fitProgram limits lines = .ok outcome)
    (apart : ∀ line ∈ lines, ∀ name ∈ outcome.auxiliary, ¬line.Calls name)
    (exits : ∀ segment ∈ containers (fuseHealth lines), ExitsFit limits none segment.body)
    (runtime : Runtime State) {segment : Segment} (original : segment ∈ containers (fuseHealth lines))
    {name : String} (named : segment.name = some name) {depth : Nat} {state : State}
    {result : Passage State}
    (ran : runtime.run (containers (fuseHealth lines)) depth name state = some result) :
    runtime.run (containers outcome.lines) (depth * (outcome.auxiliary.length + 1)) name state =
      some result := by
  obtain ⟨groups, fitted, auxiliary, all⟩ := fitProgram_groups conditionals fits
  have nested := (fitProgram_eq_ok.mp fits).1
  obtain ⟨nodup, fresh⟩ := fresh_names fitted nested
  have sources : containers (fuseHealth lines) = groups.map (fun group => group.segment.bare) := by
    rw [containers_eq, ← fitted.segments, List.map_map]
    rfl
  rw [auxiliary] at apart ⊢
  rw [all]
  rw [sources] at ran original
  refine call_resumes fitted nested nodup fresh (fun segment listed => ?_) (fun line member => ?_)
    (fun other among same => ?_) ran
  · refine exitsFit_bare.mp (exits segment.bare ?_)
    rw [containers_eq]
    exact List.mem_map.mpr ⟨segment, listed, rfl⟩
  · exact fun name among calls => apart line (calls_of_mem_fuseHealth member calls) name among calls
  · obtain ⟨group, listed, rfl⟩ := List.mem_map.mp original
    rw [callLine_inj] at same
    exact fresh group listed name named (same ▸ among)

end Program

/-! ## Two programs -/

/-- A target whose state is the number of effects, and which enters conditionals before the second. -/
def counting : Runtime Nat where
  truth text state := text = fillerLine.text || state < 2
  effect _ state := state + 1
  foreign _ state := state
  truth_filler _ := by simp

/-- A container with a full conditional that calls one that may exit early. -/
def relay : List Line :=
  [headerLine "f", change "a", callLine "g", opening, change "b", change "c", Line.closing, change "d",
    headerLine "g", opening, exit, Line.closing, change "e"]
where
  change (text : String) : Line := { text, tag := .change .player }
  opening : Line := { text := "if and (x > 1) \x7b", tag := .openAll }
  exit : Line := { text := "exit", tag := .exit }

theorem fitProgram_relay :
    fitProgram ⟨1, 1⟩ relay = .ok (fitContainers ⟨1, 1⟩ relay).reindent :=
  fitProgram_eq_ok.mpr ⟨rfl, rfl⟩

theorem auxiliary_relay :
    (fitContainers ⟨1, 1⟩ relay).reindent.auxiliary = ["f 1", "f 2"] := by cbv

theorem fitProgram_resumes_relay :
    ∃ outcome, fitProgram ⟨1, 1⟩ relay = .ok outcome ∧ outcome.auxiliary = ["f 1", "f 2"] ∧
      (∀ line ∈ relay, ∀ name ∈ outcome.auxiliary, ¬line.Calls name) ∧
      (∀ segment ∈ containers (fuseHealth relay), ExitsFit ⟨1, 1⟩ none segment.body) ∧
      counting.run (containers (fuseHealth relay)) 2 "f" 0 =
        some ⟨["a", "b", "c", "d"].map relay.change, 4⟩ ∧
      counting.run (containers outcome.lines) 6 "f" 0 =
        some ⟨["a", "b", "c", "d"].map relay.change, 4⟩ := by
  have apart : ∀ line ∈ relay, ∀ name ∈ (fitContainers ⟨1, 1⟩ relay).reindent.auxiliary,
      ¬line.Calls name := by
    rw [auxiliary_relay]
    decide
  have exits : ∀ segment ∈ containers (fuseHealth relay), ExitsFit ⟨1, 1⟩ none segment.body := by
    decide +kernel
  have ran : counting.run (containers (fuseHealth relay)) 2 "f" 0 =
      some ⟨["a", "b", "c", "d"].map relay.change, 4⟩ := by
    decide +kernel
  have original : ∃ segment ∈ containers (fuseHealth relay), segment.name = some "f" := by
    decide +kernel
  obtain ⟨segment, listed, named⟩ := original
  have kept := fitProgram_resumes (by decide) fitProgram_relay apart exits counting listed named ran
  rw [auxiliary_relay] at kept
  exact ⟨_, fitProgram_relay, auxiliary_relay, apart, exits, ran, kept⟩

/-- A container that is left from a conditional, behind more changes than fit into its body. -/
def retreat : List Line :=
  [headerLine "f", relay.opening, relay.change "a", relay.change "b", relay.exit, Line.closing,
    relay.change "c"]

/-- The exit is moved out of the conditional with the second change. It then ends the auxiliary container
only, so the container goes on behind the conditional. -/
theorem fitProgram_retreat :
    ∃ outcome, fitProgram ⟨1, 1⟩ retreat = .ok outcome ∧
      (∀ line ∈ retreat, ∀ name ∈ outcome.auxiliary, ¬line.Calls name) ∧
      counting.run (containers (fuseHealth retreat)) 1 "f" 0 =
        some ⟨["a", "b"].map relay.change, 2⟩ ∧
      ∀ depth result, counting.run (containers outcome.lines) depth "f" 0 = some result →
        result.changes = ["a", "b", "c"].map relay.change := by
  refine ⟨(fitContainers ⟨1, 1⟩ retreat).reindent, fitProgram_eq_ok.mpr ⟨rfl, rfl⟩, ?_, ?_, ?_⟩
  · have auxiliary : (fitContainers ⟨1, 1⟩ retreat).reindent.auxiliary = ["f 1"] := by cbv
    rw [auxiliary]
    decide
  · decide +kernel
  · intro depth result ran
    have written : (fitContainers ⟨1, 1⟩ retreat).lines =
        [headerLine "f", relay.opening, relay.change "a", callLine "f 1", Line.closing, relay.change "c",
          headerLine "f 1", relay.change "b", relay.exit] := by
      cbv
    have whole : counting.run (containers (fitContainers ⟨1, 1⟩ retreat).reindent.lines) 2 "f" 0 =
        some ⟨["a", "b", "c"].map relay.change, 3⟩ := by
      rw [Outcome.reindent, containers_reindent, written]
      decide +kernel
    rw [Runtime.call_unique ran whole]

end StatScript.Fitting
