import Mathlib.Data.List.Nodup
import StatScript.Proofs.Fitting.Depth
import StatScript.Proofs.Fitting.Health

/-!
# The names of auxiliary containers

An auxiliary container is named after the container that its lines come from, with a number behind. The
numbers of one container rise, whatever names are passed over, and its auxiliary containers stand behind
it before the next header.

Results:
1. `containerNames_fuseHealth`: fusing health lines keeps the names that headers give.
2. `Course.numbered`, `Family.numbered`: names are numbered through a container and all that is cut from
   it.
3. `Course.moved_infix`, `Family.members_infix`: what is moved out stood in a row.
4. `fitProgram_auxiliary_names`: names are new, given by one header each, and in their place.
-/

namespace StatScript.Fitting

open Supply

/-! ## Names that headers give -/

/-- The name of the container that a line starts, if it starts one and gives a name. -/
def containerName? (line : Line) : Option String :=
  if line.tag = .header then headerName? line else none

/-- The names that the headers among lines give, in order. -/
def containerNames (lines : List Line) : List String :=
  lines.filterMap containerName?

/-- The containers of a program are named by its headers. -/
theorem containerNames_eq (lines : List Line) :
    containerNames lines = (segments headerName? lines).filterMap Segment.name := by
  have named : containerNames lines = (cut headerName? lines).2.filterMap Segment.name := by
    unfold containerNames
    induction lines with
    | nil => rfl
    | cons line rest ih =>
        by_cases tag : line.tag = .header
        · simp [tag, List.filterMap_cons, ih, containerName?]
        · simp [tag, ih, containerName?]
  exact named

theorem containerNames_containers (lines : List Line) :
    containerNames lines = (containers lines).filterMap Segment.name := by
  rw [containerNames_eq, containers_eq, List.filterMap_map]
  rfl

theorem head_of_headerName? {line : Line} {name : String} (named : headerName? line = some name) :
    (Text.trim line.text).toList.head? = some 'g' := by
  unfold headerName? Text.between? at named
  cases found : Text.after? headerLead.toList (Text.trim line.text).toList with
  | none =>
      rw [found] at named
      cases named
  | some rest =>
      rw [Text.eq_append_of_after? found]
      rfl

/-- A text whose first word sets the maximal health is no header. -/
theorem headerName?_eq_none {line : Line} {further : List String}
    (words : Text.words line.text = maxHealth :: further) : headerName? line = none := by
  rw [Option.eq_none_iff_forall_ne_some]
  intro name named
  obtain ⟨word, rest, same⟩ := Text.words_of_trim (head_of_headerName? named) rfl
  rw [words] at same
  have first : maxHealth.toList = 'g' :: word := by
    rw [(List.cons.inj same).1, String.toList_ofList]
  cases (List.cons.inj first).1

/-- A line that gives a name says nothing about health. -/
theorem inert_of_headerName? {line : Line} {name : String} (named : headerName? line = some name) :
    Inert line.text := by
  refine ⟨?_, ?_⟩
  · cases sets : unflaggedAmount? line.text with
    | none => rfl
    | some amount =>
        rw [headerName?_eq_none (unflaggedAmount?_eq_some sets)] at named
        cases named
  · intro heals
    have head := head_of_headerName? named
    rw [heals] at head
    cases head

theorem containerName?_flagged (line : Line) (amount : String) (heal : Bool) :
    containerName? (flagged line amount heal) = none := by
  have words : ∃ further, Text.words (flagged line amount heal).text = maxHealth :: further := by
    have text : (flagged line amount heal).text =
        maxHealth ++ " " ++ (amount ++ if heal then " true" else " false") :=
      String.append_assoc ..
    rw [text, Text.words_append, Text.words_solid (by decide)]
    exact ⟨_, rfl⟩
  obtain ⟨further, words⟩ := words
  unfold containerName?
  split
  · exact headerName?_eq_none words
  · rfl

/-- Fusing health lines keeps the names that headers give. -/
theorem containerNames_fuseHealth (lines : List Line) :
    containerNames (fuseHealth lines) = containerNames lines := by
  refine filterMap_fuseHealth ?_ containerName?_flagged lines
  intro line name named
  unfold containerName? at named
  split at named
  · exact inert_of_headerName? named
  · cases named

/-! ## Rising numbers -/

/-- `Numbered base start names stop`: the names are `base` with rising numbers behind, from `start` on
and below `stop`. -/
inductive Numbered (base : String) : Nat → List String → Nat → Prop
  | nil (start : Nat) : Numbered base start [] start
  | cons {start number stop : Nat} {names : List String} :
      start ≤ number → Numbered base (number + 1) names stop →
      Numbered base start (auxiliaryName base number :: names) stop

section Numbered

variable {base : String} {start middle stop : Nat} {first second : List String}

theorem Numbered.append (left : Numbered base start first middle)
    (right : Numbered base middle second stop) : Numbered base start (first ++ second) stop := by
  induction left with
  | nil _ => exact right
  | cons least _ ih => exact .cons least (ih right)

theorem Numbered.exists_numbers (numbered : Numbered base start first stop) :
    ∃ numbers : List Nat, first = numbers.map (auxiliaryName base) ∧ numbers.Pairwise (· < ·) ∧
      ∀ number ∈ numbers, start ≤ number := by
  induction numbered with
  | nil _ => exact ⟨[], rfl, .nil, nofun⟩
  | @cons start number stop names least _ ih =>
      obtain ⟨numbers, rfl, rising, beyond⟩ := ih
      refine ⟨number :: numbers, rfl, List.pairwise_cons.mpr ⟨beyond, rising⟩, ?_⟩
      intro other member
      rcases List.mem_cons.mp member with rfl | member
      · exact least
      · exact Nat.le_of_succ_le (Nat.le_trans (Nat.succ_le_succ least) (beyond other member))

end Numbered

theorem Supply.nextName_numbered (supply : Supply) (base : String) :
    Numbered base supply.nextSuffix [(supply.nextName base).1] (supply.nextName base).2.nextSuffix :=
  .cons (le_freshSuffix base supply.taken supply.nextSuffix) (.nil _)

section Course

variable {limits : Limits} {position : Position} {room : Room} {supply : Supply} {lines : List Line}
  {fitted : Fitted}

/-- What is moved out of a container is named after it, with rising numbers. -/
theorem Course.numbered {name : String}
    (course : Course limits (some name) position room supply lines fitted) :
    Numbered name supply.nextSuffix (names fitted.moved) fitted.supply.nextSuffix := by
  refine course.relates (fun before names _ behind => Numbered name before.nextSuffix names behind.nextSuffix)
    (fun _ => .nil _) .append ?_ nofun
  rintro _ ⟨⟩ supply
  exact nextName_numbered supply name

/-- What is moved out of a body stood in a row there. -/
theorem Course.moved_infix {base : Option String}
    (course : Course limits base position room supply lines fitted) :
    ∀ relocation ∈ fitted.moved, relocation.body <:+: lines := by
  have later {line : Line} {rest : List Line} {fitted : Fitted}
      (ih : ∀ relocation ∈ fitted.moved, relocation.body <:+: rest) :
      ∀ relocation ∈ fitted.moved, relocation.body <:+: line :: rest :=
    fun relocation member => List.infix_cons (ih relocation member)
  induction course with
  | done _ => exact nofun
  | endFiller _ _ ih => exact ih
  | plain _ _ _ _ _ ih => exact later ih
  | turn _ _ _ _ _ _ _ _ _ ih => exact later ih
  | fill _ _ _ _ _ ih => exact later ih
  | moveRest _ _ _ _ =>
      intro relocation member
      obtain rfl := List.mem_singleton.mp member
      exact List.infix_rfl
  | @moveBody _ _ _ _ line rest _ _ _ _ _ _ _ _ ih =>
      intro relocation member
      rcases List.mem_cons.mp member with rfl | member
      · exact ((List.prefix_cons_inj line).mpr (List.takeWhile_prefix staysInBody)).isInfix
      · exact List.infix_cons ((ih relocation member).trans (List.dropWhile_suffix staysInBody).isInfix)
  | markRest _ _ _ _ _ _ _ ih => exact later ih
  | markBody _ _ _ _ _ _ _ ih => exact later ih

end Course

/-! ## Families -/

section Family

variable {limits : Limits} {supply behind : Supply} {source : List Line} {pending : List Relocation}
  {members : List Member}

/-- The numbers go on through all that is cut from a container. -/
theorem Family.numbered {name : String}
    (family : Family limits (some name) supply pending members behind) (headless : Headless source)
    (movable : ∀ queued ∈ pending, queued.Movable source) :
    ∃ new, memberNames members = names pending ++ new ∧
      Numbered name supply.nextSuffix new behind.nextSuffix :=
  family.names_eq headless movable
    (fun before names behind => Numbered name before.nextSuffix names behind.nextSuffix)
    (fun supply => .nil supply.nextSuffix) .append Course.numbered

theorem Family.members_infix {base : Option String}
    (family : Family limits base supply pending members behind) (headless : Headless source)
    (movable : ∀ queued ∈ pending, queued.Movable source)
    (within : ∀ queued ∈ pending, queued.body <:+: source) :
    ∀ member ∈ members, member.relocation.body <:+: source := by
  induction family with
  | nil => exact nofun
  | @cons supply behind relocation rest fitted members fits family ih =>
      subst fits
      obtain ⟨first, others⟩ := List.forall_mem_cons.mp within
      have course := (movable relocation List.mem_cons_self).course headless limits base supply
      refine List.forall_mem_cons.mpr ⟨first, ih (movable_queue headless movable) ?_⟩
      refine List.forall_mem_append.mpr ⟨others, ?_⟩
      intro queued member
      exact (course.moved_infix queued member).trans first

end Family

/-! ## Groups -/

/-- A group as fitting makes it.

* `fitted`, `members`: its containers hold fitted lines, and those of an auxiliary container stood in a
  row in the container of the program.
* `named`: auxiliary containers are named after the container of the program, with rising numbers.
* `unnamed`: a container without a name has no auxiliary ones. -/
structure Group.Formed (limits : Limits) (group : Group) : Prop where
  fitted : ∃ supply, group.fitted = fit limits group.segment.name {} supply group.segment.body
  members : ∀ member ∈ group.members, member.relocation.body <:+: group.segment.body ∧
    ∃ supply, member.fitted = fit limits group.segment.name {} supply member.relocation.body
  named : ∀ base, group.segment.name = some base → ∃ numbers : List Nat,
    numbers.Pairwise (· < ·) ∧ memberNames group.members = numbers.map (auxiliaryName base)
  unnamed : group.segment.name = none → group.members = []

theorem Groups.formed {limits : Limits} {supply : Supply} {containers : List Segment}
    {groups : List Group} (fitted : Groups limits supply containers groups)
    (sound : ∀ segment ∈ containers, segment.Sound) : ∀ group ∈ groups, group.Formed limits := by
  induction fitted with
  | nil => exact nofun
  | @cons supply behind segment fitted members rest groups fits family further ih =>
      obtain ⟨⟨headless, nested⟩, others⟩ := List.forall_mem_cons.mp sound
      have course := Segment.Sound.course ⟨headless, nested⟩ fits
      refine List.forall_mem_cons.mpr ⟨⟨⟨supply.restart, fits⟩, ?_, ?_, ?_⟩, ih others⟩
      · intro member listed
        obtain ⟨-, fitted_eq⟩ := family.movable headless course.moved member listed
        exact ⟨family.members_infix headless course.moved course.moved_infix member listed, fitted_eq⟩
      · intro base named
        replace named : segment.name = some base := named
        rw [named] at course family
        obtain ⟨new, names_eq, numbered⟩ := family.numbered headless course.moved
        obtain ⟨numbers, numbers_eq, rising, -⟩ := (course.numbered.append numbered).exists_numbers
        exact ⟨numbers, rising, names_eq.trans numbers_eq⟩
      · intro unnamed
        replace unnamed : segment.name = none := unnamed
        rw [unnamed] at course family
        rw [course.moved_eq_nil] at family
        cases family
        rfl

/-- A name is given as often as the containers of the program have it and as it is handed out. -/
theorem count_containersOf (name : String) (groups : List Group) :
    ((containersOf groups).filterMap Segment.name).count name =
      ((groups.map Group.segment).filterMap Segment.name).count name +
        (auxiliaryOf groups).count name := by
  induction groups with
  | nil => rfl
  | cons group rest ih =>
      have members : (group.members.map Member.segment).filterMap Segment.name =
          memberNames group.members := by
        rw [List.filterMap_map, memberNames, ← List.filterMap_eq_map]
        rfl
      have first : group.containers.filterMap Segment.name =
          group.segment.name.toList ++ memberNames group.members := by
        rw [Group.containers, ← List.singleton_append, List.filterMap_append, members]
        cases named : group.segment.name <;> simp [Group.original, named]
      have original : (group.segment :: rest.map Group.segment).filterMap Segment.name =
          group.segment.name.toList ++ (rest.map Group.segment).filterMap Segment.name := by
        cases named : group.segment.name <;> simp [named]
      rw [containersOf, List.flatMap_cons, ← containersOf, List.filterMap_append, first, List.map_cons,
        original, auxiliaryOf, List.flatMap_cons, ← auxiliaryOf]
      simp only [List.count_append] at ih ⊢
      omega

/-! ## Programs -/

section Program

variable {limits : Limits} {lines : List Line} {outcome : Outcome}

/-- The names of auxiliary containers are pairwise different, and no header of the program gives one of
them. -/
theorem fitProgram_fresh (conditionals : 1 ≤ limits.conditionals)
    (fits : fitProgram limits lines = .ok outcome) :
    outcome.auxiliary.Nodup ∧ ∀ name ∈ outcome.auxiliary, name ∉ containerNames lines := by
  obtain ⟨groups, fitted, auxiliary, -⟩ := fitProgram_groups conditionals fits
  obtain ⟨behind, fresh⟩ := fitted.fresh (segments_sound (fitProgram_eq_ok.mp fits).1)
  rw [auxiliary]
  refine ⟨fresh.nodup, ?_⟩
  intro name added
  rw [← containerNames_fuseHealth, containerNames_eq]
  exact fresh.new name added

/-- The auxiliary containers of a fitted program have names that are pairwise different and given by no
header of the program, and each is given by one header of the result. Behind each container of the
program stand those cut from it, in the order in which they are reported, before the next one: they hold
lines that stood in a row in it, fitted, and are named after it with rising numbers. A container without
a name has none. -/
theorem fitProgram_auxiliary_names (conditionals : 1 ≤ limits.conditionals)
    (fits : fitProgram limits lines = .ok outcome) :
    outcome.auxiliary.Nodup ∧
      (∀ name ∈ outcome.auxiliary,
        name ∉ containerNames lines ∧ (containerNames outcome.lines).count name = 1) ∧
      ∃ groups : List Group,
        groups.map Group.segment = segments headerName? (fuseHealth lines) ∧
        containers outcome.lines = (containersOf groups).map Segment.bare ∧
        outcome.auxiliary = auxiliaryOf groups ∧ ∀ group ∈ groups, group.Formed limits := by
  obtain ⟨nodup, fresh⟩ := fitProgram_fresh conditionals fits
  obtain ⟨groups, fitted, auxiliary, all⟩ := fitProgram_groups conditionals fits
  refine ⟨nodup, ?_, groups, fitted.segments, all, auxiliary,
    fitted.formed (segments_sound (fitProgram_eq_ok.mp fits).1)⟩
  intro name added
  refine ⟨fresh name added, ?_⟩
  have given : containerNames outcome.lines = (containersOf groups).filterMap Segment.name := by
    rw [containerNames_containers, all, List.filterMap_map]
    rfl
  have source : (groups.map Group.segment).filterMap Segment.name = containerNames lines := by
    rw [fitted.segments, ← containerNames_eq, containerNames_fuseHealth]
  rw [given, count_containersOf, source, ← auxiliary, List.count_eq_zero.mpr (fresh name added),
    List.count_eq_one_of_mem nodup added]

end Program

/-- Two containers named `f` and one named like an auxiliary container, each with a change too many. -/
def rivals : List Line :=
  headerLine "f" :: crowd ++ headerLine "f 1" :: crowd ++ headerLine "f" :: crowd
where
  change (text : String) : Line := { text, tag := .change .player }
  crowd : List Line := [change "a", change "b", change "c"]

theorem fitProgram_rivals :
    fitProgram ⟨1, 1⟩ rivals = .ok (fitContainers ⟨1, 1⟩ rivals).reindent :=
  fitProgram_eq_ok.mpr ⟨rfl, rfl⟩

theorem auxiliary_rivals :
    (fitContainers ⟨1, 1⟩ rivals).reindent.auxiliary = ["f 2", "f 1 1", "f 3"] := by cbv

/-- The name of the second container is passed over, and so is what the first one has taken. -/
theorem fitProgram_auxiliary_names_rivals :
    ∃ outcome, fitProgram ⟨1, 1⟩ rivals = .ok outcome ∧
      containerNames outcome.lines = ["f", "f 2", "f 1", "f 1 1", "f", "f 3"] ∧
      (containerNames outcome.lines).count "f 2" = 1 ∧
      ∃ groups : List Group, auxiliaryOf groups = ["f 2", "f 1 1", "f 3"] ∧
        ∀ group ∈ groups, group.Formed ⟨1, 1⟩ := by
  obtain ⟨-, given, groups, -, -, auxiliary, formed⟩ :=
    fitProgram_auxiliary_names (by decide) fitProgram_rivals
  refine ⟨_, fitProgram_rivals, by cbv, ?_, groups, ?_, formed⟩
  · exact (given "f 2" (by rw [auxiliary_rivals]; decide)).2
  · rw [← auxiliary, auxiliary_rivals]

end StatScript.Fitting
