import Mathlib.Logic.Function.Iterate
import StatScript.Proofs.Fitting.Family

/-!
# The queue of auxiliary containers

The lines moved out of a container wait in a queue. Each round takes the first of them, fits it, and puts what
is moved out of it at the end of the queue. A round may lengthen the queue, but it leaves fewer lines in it that
take room: those moved out of a body all stood in it, and its first line stays behind.

Results:
1. `Limits.one_le_of_ofLookup`: an environment sets no limit to zero.
2. `Family.rounds`: a family is written in as many rounds as it has members.
3. `weight_moved_lt`: fitting an auxiliary container leaves fewer lines that take room to be moved.
4. `Family.length_le`: a family has no more members than lines that take room.
5. `worklist_empties`: the queue of every container empties, with limits as an environment can set them.
-/

namespace StatScript

namespace Limits

/-! ## Limits of an environment -/

theorem one_le_of_parse {key value : String} {limit : Nat} (read : parse key value = .ok limit) :
    1 ≤ limit := by
  unfold parse at read
  split at read
  · obtain rfl := Except.ok.inj read
    exact Nat.succ_pos _
  · cases read

theorem one_le_of_resolve {lookup : String → Option String} {key : String} {default limit : Nat}
    (positive : 1 ≤ default) (found : resolve lookup key default = .ok limit) : 1 ≤ limit := by
  unfold resolve at found
  split at found
  · exact one_le_of_parse found
  · obtain rfl := Except.ok.inj found
    exact positive

/-- An environment sets no limit to zero. -/
theorem one_le_of_ofLookup {lookup : String → Option String} {limits : Limits}
    (found : ofLookup lookup = .ok limits) : 1 ≤ limits.changes ∧ 1 ≤ limits.conditionals := by
  unfold ofLookup at found
  rcases first : resolve lookup changesKey ({} : Limits).changes with error | changes
  · rw [first] at found
    cases found
  · rcases second : resolve lookup conditionalsKey ({} : Limits).conditionals with
      error | conditionals
    · rw [first, second] at found
      cases found
    · rw [first, second] at found
      obtain rfl := Except.ok.inj found
      exact ⟨one_le_of_resolve (by decide) first, one_le_of_resolve (by decide) second⟩

end Limits

namespace Fitting

/-! ## Rounds -/

/-- The queue while a container is fitted: the lines that wait, the names that are left, and what is written. -/
structure Worklist where
  pending : List Relocation
  supply : Supply
  written : Outcome

/-- The queue behind the lines of a container that stay in it. -/
def Worklist.start (limits : Limits) (supply : Supply) (segment : Segment) : Worklist :=
  let fitted := fit limits segment.name {} supply.restart segment.body
  ⟨fitted.moved, fitted.supply, { lines := segment.header.toList } ++ fitted.outcome⟩

/-- One round: the first lines that wait become an auxiliary container, whatever is moved out of them. -/
def Worklist.round (limits : Limits) (base : Option String) (worklist : Worklist) : Worklist :=
  match worklist.pending with
  | [] => worklist
  | relocation :: rest =>
      let fitted := fit limits base {} worklist.supply relocation.body
      ⟨rest ++ fitted.moved, fitted.supply,
        worklist.written ++ (relocation.outcome ++ fitted.outcome)⟩

section Family

variable {limits : Limits} {base : Option String} {supply behind : Supply} {pending : List Relocation}
  {members : List Member}

/-- A family is written in as many rounds as it has members, and then nothing waits. -/
theorem Family.rounds (family : Family limits base supply pending members behind) (written : Outcome) :
    (Worklist.round limits base)^[members.length] ⟨pending, supply, written⟩ =
      ⟨[], behind, written ++ Outcome.join (members.map Member.outcome)⟩ := by
  induction family generalizing written with
  | nil => exact congrArg (Worklist.mk [] _) (Outcome.append_empty written).symm
  | @cons supply behind relocation rest fitted members fits family ih =>
      subst fits
      rw [List.length_cons, Function.iterate_succ_apply, Worklist.round, ih, Outcome.append_assoc]
      rfl

/-! ## Weight -/

/-- The number of lines that wait and take room. -/
def weight (pending : List Relocation) : Nat :=
  (pending.flatMap Relocation.body).countP Line.takesRoom

/-- The lines begin with one that takes room. -/
def Relocation.Weighs (relocation : Relocation) : Prop :=
  ∃ line more, relocation.body = line :: more ∧ line.takesRoom

theorem weight_cons (relocation : Relocation) (rest : List Relocation) :
    weight (relocation :: rest) = relocation.body.countP Line.takesRoom + weight rest := by
  rw [weight, List.flatMap_cons, List.countP_append]
  rfl

theorem weight_append (first second : List Relocation) :
    weight (first ++ second) = weight first + weight second := by
  rw [weight, List.flatMap_append, List.countP_append]
  rfl

theorem weighs_moved (limits : Limits) (base : Option String) (supply : Supply) (lines : List Line) :
    ∀ relocation ∈ (fit limits base {} supply lines).moved, relocation.Weighs := by
  intro relocation moved
  exact (parts_fit limits base {} supply lines).begins _ (List.mem_map_of_mem moved)

theorem weight_moved_le (limits : Limits) (base : Option String) (supply : Supply) (lines : List Line) :
    weight (fit limits base {} supply lines).moved ≤ lines.countP Line.takesRoom :=
  (parts_fit limits base {} supply lines).sublist.countP_le

/-- What is moved out of an auxiliary container weighs less than it. -/
theorem weight_moved_lt (conditionals : 1 ≤ limits.conditionals) (base : Option String) (supply : Supply)
    {relocation : Relocation} (weighs : relocation.Weighs) :
    weight (fit limits base {} supply relocation.body).moved <
      relocation.body.countP Line.takesRoom := by
  obtain ⟨line, more, body, takes⟩ := weighs
  rw [body, List.countP_cons_of_pos takes]
  exact Nat.lt_succ_of_le (parts_fit_start conditionals base supply line more).sublist.countP_le

/-- A family has no more members than lines that wait and take room. -/
theorem Family.length_le (family : Family limits base supply pending members behind)
    (conditionals : 1 ≤ limits.conditionals) (weighs : ∀ relocation ∈ pending, relocation.Weighs) :
    members.length ≤ weight pending := by
  induction family with
  | nil => exact Nat.le_refl 0
  | @cons supply behind relocation rest fitted members fits family ih =>
      subst fits
      obtain ⟨first, others⟩ := List.forall_mem_cons.mp weighs
      have later := ih (List.forall_mem_append.mpr ⟨others, weighs_moved limits base supply _⟩)
      -- The line that stays in the first container pays for it.
      have less := weight_moved_lt conditionals base supply first
      rw [weight_append] at later
      rw [List.length_cons, weight_cons]
      omega

end Family

/-! ## Containers -/

/-- With a limit of at least one on conditionals, and any on changes, the queue of every container empties. The
ranges moved out of a body lie apart, none of them is empty, and together they are shorter than it. A container
is finished after one round for each auxiliary container, and it has no more of these than lines that take room.
All limits that an environment can set are at least one. -/
theorem worklist_empties {limits : Limits} (conditionals : 1 ≤ limits.conditionals) :
    (∀ (name : String) (supply : Supply) (body : List Line), body ≠ [] →
      (∃ spans, Spans body spans
        ((fit limits (some name) {} supply body).moved.map Relocation.body)) ∧
      movedLines (fit limits (some name) {} supply body).moved < body.length) ∧
    (∀ (supply : Supply) (segment : Segment),
      (Worklist.round limits segment.name)^[(fitSegment limits supply segment).1.auxiliary.length]
          (Worklist.start limits supply segment) =
        { pending := []
          supply := (fitSegment limits supply segment).2
          written := (fitSegment limits supply segment).1 } ∧
      (fitSegment limits supply segment).1.auxiliary.length ≤ segment.body.countP Line.takesRoom) ∧
    ∀ (lookup : String → Option String) (found : Limits), Limits.ofLookup lookup = .ok found →
      1 ≤ found.changes ∧ 1 ≤ found.conditionals := by
  refine ⟨fun name supply body nonempty => ?_, fun supply segment => ?_, fun lookup found =>
    Limits.one_le_of_ofLookup⟩
  · exact ⟨(parts_fit limits (some name) {} supply body).exists_spans,
      movedLines_fit_lt conditionals (some name) supply nonempty⟩
  · obtain ⟨members, behind, family, written⟩ := exists_family conditionals segment.name
      (fit limits segment.name {} supply.restart segment.body).supply
      (fit limits segment.name {} supply.restart segment.body).moved
    have fitted : fitSegment limits supply segment =
        (Group.outcome ⟨segment, fit limits segment.name {} supply.restart segment.body, members⟩,
          behind) := by
      rw [fitSegment, written]
      rfl
    have length : (fitSegment limits supply segment).1.auxiliary.length = members.length := by
      simp [fitted, memberNames]
    rw [length, fitted]
    refine ⟨family.rounds _, ?_⟩
    exact Nat.le_trans (family.length_le conditionals (weighs_moved _ _ _ _)) (weight_moved_le _ _ _ _)

/-- The container that is crowded. -/
def crowdedContainer : Segment :=
  ⟨some (headerLine "f"), some "f", crowded.drop 1⟩

/-- With a limit of one on conditionals and of zero on changes, two ranges are moved out of the lines from the
conditional on, and five auxiliary containers are cut from the whole container. -/
theorem worklist_empties_crowded :
    1 ≤ (⟨0, 1⟩ : Limits).conditionals ∧
    (∃ spans, Spans (crowded.drop 3) spans [(crowded.drop 4).take 2, crowded.drop 7]) ∧
    ((Worklist.round ⟨0, 1⟩ (some "f"))^[5]
        (Worklist.start ⟨0, 1⟩ (programSupply crowded) crowdedContainer)).pending = [] ∧
    (fitSegment ⟨0, 1⟩ (programSupply crowded) crowdedContainer).1.auxiliary =
      ["f 1", "f 2", "f 3", "f 4", "f 5"] ∧
    5 ≤ crowdedContainer.body.countP Line.takesRoom ∧
    Limits.ofLookup (fun _ => some " 1 ") = .ok ⟨1, 1⟩ ∧ 1 ≤ (⟨1, 1⟩ : Limits).conditionals := by
  have enough : 1 ≤ (⟨0, 1⟩ : Limits).conditionals := Nat.le_refl 1
  obtain ⟨ranges, containers, environments⟩ := worklist_empties enough
  have moved : (fit ⟨0, 1⟩ (some "f") {} (programSupply crowded) (crowded.drop 3)).moved.map
      Relocation.body = [(crowded.drop 4).take 2, crowded.drop 7] := by cbv
  have spans := (ranges "f" (programSupply crowded) (crowded.drop 3) (by decide)).1
  rw [moved] at spans
  have names : (fitSegment ⟨0, 1⟩ (programSupply crowded) crowdedContainer).1.auxiliary =
      ["f 1", "f 2", "f 3", "f 4", "f 5"] := by cbv
  have emptied := containers (programSupply crowded) crowdedContainer
  rw [names] at emptied
  have one : Limits.ofLookup (fun _ => some " 1 ") = .ok ⟨1, 1⟩ := by decide
  exact ⟨enough, spans, congrArg Worklist.pending emptied.1, names, emptied.2, one,
    (environments _ _ one).2⟩

end Fitting

end StatScript
