import Mathlib.Data.List.Forall2
import StatScript.Proofs.Fitting.Depth
import StatScript.Proofs.Fitting.Health
import StatScript.Proofs.Fitting.Strip

/-!
# Putting moved lines back

Fitting moves lines into auxiliary containers that it calls. Putting the stripped bodies of these
containers in the place of their calls gives the program again.

Results:
1. `Expands.functional`, `Expands.only`: putting called containers back has one result at most.
2. `Family.expands`, `Groups.expands`: the auxiliary containers of a family give the lines moved into
   them, and each of them is used once.
3. `fitProgram_expands`: a fitted program gives the program, container by container.
-/

namespace StatScript

/-- The line calls the container with a given name. -/
def Line.Calls (line : Line) (name : String) : Prop :=
  line.tag = .call ∧ line.text = (Fitting.callLine name).text

instance (line : Line) (name : String) : Decidable (line.Calls name) :=
  inferInstanceAs (Decidable (_ ∧ _))

namespace Fitting

/-! ## Expansion -/

/-- `Expands bodyOf written result used`: with the bodies of called containers put in the place of
the calls, and the same done to these bodies, `written` is `result`. The containers put in are
`used`. -/
inductive Expands (bodyOf : String → Option (List Line)) :
    List Line → List Line → List String → Prop
  | nil : Expands bodyOf [] [] []
  | keep {line : Line} {written result : List Line} {used : List String} :
      (∀ name, line.Calls name → bodyOf name = none) →
      Expands bodyOf written result used →
      Expands bodyOf (line :: written) (line :: result) used
  | call {line : Line} {name : String} {body inner written result : List Line}
      {usedInside used : List String} :
      line.Calls name → bodyOf name = some body →
      Expands bodyOf body inner usedInside →
      Expands bodyOf written result used →
      Expands bodyOf (line :: written) (inner ++ result) (name :: usedInside ++ used)

theorem name_eq_of_calls {line : Line} {first second : String} (left : line.Calls first)
    (right : line.Calls second) : first = second :=
  callLine_inj.mp (left.2.symm.trans right.2)

/-- Putting called containers back has one result at most. -/
theorem Expands.functional {bodyOf : String → Option (List Line)} {written : List Line}
    {result result' : List Line} {used used' : List String}
    (left : Expands bodyOf written result used) (right : Expands bodyOf written result' used') :
    result = result' ∧ used = used' := by
  induction left generalizing result' used' with
  | nil =>
      cases right
      exact ⟨rfl, rfl⟩
  | keep apart _ ih =>
      cases right with
      | keep _ further =>
          obtain ⟨rfl, rfl⟩ := ih further
          exact ⟨rfl, rfl⟩
      | call calls found _ _ =>
          rw [apart _ calls] at found
          cases found
  | call calls found _ _ ihInside ih =>
      cases right with
      | keep apart _ =>
          rw [apart _ calls] at found
          cases found
      | call calls' found' inside further =>
          obtain rfl := name_eq_of_calls calls calls'
          obtain rfl := Option.some.inj (found.symm.trans found')
          obtain ⟨rfl, rfl⟩ := ihInside inside
          obtain ⟨rfl, rfl⟩ := ih further
          exact ⟨rfl, rfl⟩

/-- `written` expands to `result`, and to nothing else. -/
def ExpandsOnly (bodyOf : String → Option (List Line)) (written result : List Line) (used : List String) :
    Prop :=
  Expands bodyOf written result used ∧
    ∀ other used', Expands bodyOf written other used' → other = result ∧ used' = used

theorem Expands.only {bodyOf : String → Option (List Line)} {written result : List Line} {used : List String}
    (expands : Expands bodyOf written result used) : ExpandsOnly bodyOf written result used :=
  ⟨expands, fun _ _ other => other.functional expands⟩

/-! ## Auxiliary containers -/

section Auxiliary

variable {bodyOf : String → Option (List Line)}

/-- The auxiliary container of a relocation, put in the place of its call, gives the lines moved into
it, with `used` the containers put into its own body. -/
def Restores (bodyOf : String → Option (List Line)) (relocation : Relocation)
    (used : List String) : Prop :=
  ∃ body, bodyOf relocation.name = some body ∧
    Expands bodyOf body ((strip false relocation.body).map Line.bare) used

/-- Lines that call none of the containers that are put back. -/
def Apart (bodyOf : String → Option (List Line)) (lines : List Line) : Prop :=
  ∀ line ∈ lines, ∀ name, line.Calls name → bodyOf name = none

theorem Apart.subset {first second : List Line} (apart : Apart bodyOf second)
    (subset : first ⊆ second) : Apart bodyOf first :=
  fun line member => apart line (subset member)

/-- Lines with calls in the place of what was moved out expand to all lines, if the auxiliary
containers give back what was moved. -/
theorem Splices.expands {moved : List Relocation} {written source : List Line}
    {uses : List (List String)} (splices : Splices moved written source)
    (apart : Apart bodyOf source) (restores : List.Forall₂ (Restores bodyOf) moved uses) :
    ∃ used, Expands bodyOf (written.map Line.bare) (source.map Line.bare) used ∧
      used.Perm (names moved ++ uses.flatten) := by
  induction splices generalizing uses with
  | nil =>
      cases restores
      exact ⟨[], .nil, List.Perm.refl []⟩
  | keep line _ ih =>
      obtain ⟨first, others⟩ := List.forall_mem_cons.mp apart
      obtain ⟨used, expands, permuted⟩ := ih others restores
      exact ⟨used, .keep first expands, permuted⟩
  | call relocation _ ih =>
      cases restores with
      | @cons _ usedInside _ _ restored further =>
          obtain ⟨body, found, inside⟩ := restored
          obtain ⟨used, expands, permuted⟩ :=
            ih (apart.subset (List.subset_append_right _ _)) further
          refine ⟨relocation.name :: usedInside ++ used, ?_, ?_⟩
          · rw [List.map_append]
            exact .call ⟨rfl, rfl⟩ found inside expands
          · rw [List.perm_iff_count] at permuted ⊢
            intro name
            have counts := permuted name
            simp only [names, List.map_cons, List.cons_append, List.count_cons,
              List.count_append, List.flatten_cons] at counts ⊢
            omega

/-- The body of a fitted container, as it is put in the place of a call. -/
def Fitted.stripped (fitted : Fitted) : List Line :=
  (strip false fitted.lines).map Line.bare

/-- The auxiliary containers of a family give back the lines moved into them, and each of them is
used once, by what was pending or by another one. -/
theorem Family.expands {limits : Limits} {base : Option String} {supply behind : Supply}
    {source : List Line} {pending : List Relocation} {members : List Member}
    (family : Family limits base supply pending members behind) (headless : Headless source)
    (movable : ∀ queued ∈ pending, queued.Movable source) (apart : Apart bodyOf source)
    (found : ∀ member ∈ members, bodyOf member.relocation.name = some member.fitted.stripped) :
    ∃ uses, List.Forall₂ (Restores bodyOf) pending uses ∧
      (names pending ++ uses.flatten).Perm (memberNames members) := by
  induction family with
  | nil => exact ⟨[], .nil, List.Perm.refl []⟩
  | @cons supply behind relocation rest fitted members fits family ih =>
      obtain ⟨firstFound, othersFound⟩ := List.forall_mem_cons.mp found
      have first := movable relocation List.mem_cons_self
      have course := first.course headless limits base supply
      rw [← fits] at course
      obtain ⟨uses, restores, permuted⟩ := ih (fits ▸ movable_queue headless movable) othersFound
      -- The queue behind this member is what was pending and then what was moved out of it.
      obtain ⟨usesRest, usesMoved, restoresRest, restoresMoved, rfl⟩ :
          ∃ usesRest usesMoved, List.Forall₂ (Restores bodyOf) rest usesRest ∧
            List.Forall₂ (Restores bodyOf) fitted.moved usesMoved ∧ uses = usesRest ++ usesMoved :=
        ⟨_, _, (List.forall₂_take_append _ _ _ restores.flip).flip,
          (List.forall₂_drop_append _ _ _ restores.flip).flip, (List.take_append_drop _ _).symm⟩
      obtain ⟨used, expands, usedPermuted⟩ :=
        (course.splices .outside).expands
          (apart.subset (List.Subset.trans (strip_subset false _) first.subset)) restoresMoved
      refine ⟨used :: usesRest, .cons ⟨_, firstFound, expands⟩ restoresRest, ?_⟩
      -- The order differs, since the queue is worked off from its front; only the counts agree.
      rw [List.perm_iff_count] at permuted usedPermuted ⊢
      intro name
      have counts := permuted name
      have usedCounts := usedPermuted name
      simp only [names, memberNames, List.map_cons, List.map_append, List.cons_append,
        List.count_cons, List.count_append, List.flatten_cons, List.flatten_append]
        at counts usedCounts ⊢
      omega

/-- The containers of fitted groups expand to those they were fitted from, and together they use each
auxiliary container once. -/
theorem Groups.expands {limits : Limits} {supply : Supply} {containers : List Segment}
    {groups : List Group} (fitted : Groups limits supply containers groups)
    (sound : ∀ segment ∈ containers, segment.Sound)
    (apart : ∀ segment ∈ containers, Apart bodyOf segment.body)
    (found : ∀ member ∈ groups.flatMap Group.members,
      bodyOf member.relocation.name = some member.fitted.stripped) :
    ∃ uses, List.Forall₂ (fun group used => Expands bodyOf group.fitted.stripped
        ((strip false group.segment.body).map Line.bare) used) groups uses ∧
      uses.flatten.Perm (auxiliaryOf groups) := by
  induction fitted with
  | nil => exact ⟨[], .nil, List.Perm.refl []⟩
  | @cons supply behind segment fitted members rest groups fits family further ih =>
      obtain ⟨⟨headless, nested⟩, others⟩ := List.forall_mem_cons.mp sound
      obtain ⟨firstApart, othersApart⟩ := List.forall_mem_cons.mp apart
      rw [List.flatMap_cons, List.forall_mem_append] at found
      have course := Segment.Sound.course ⟨headless, nested⟩ fits
      obtain ⟨usesMoved, restores, permuted⟩ :=
        family.expands headless course.moved firstApart found.1
      obtain ⟨used, expands, usedPermuted⟩ :=
        (course.splices .outside).expands (firstApart.subset (strip_subset false _)) restores
      obtain ⟨uses, expandRest, restPermuted⟩ := ih others othersApart found.2
      refine ⟨used :: uses, .cons expands expandRest, ?_⟩
      exact (usedPermuted.trans permuted).append restPermuted

end Auxiliary

/-! ## Programs -/

theorem bodyEnd?_bare (lines : List Line) :
    bodyEnd? (lines.map Line.bare) = (bodyEnd? lines).map Line.bare := by
  rw [bodyEnd?, List.find?_map]
  rfl

theorem continuesInElse_bare (lines : List Line) :
    continuesInElse (lines.map Line.bare) = continuesInElse lines := by
  rw [continuesInElse, bodyEnd?_bare, Option.any_map]
  rfl

@[simp]
theorem strip_bare (inFiller : Bool) (lines : List Line) :
    strip inFiller (lines.map Line.bare) = (strip inFiller lines).map Line.bare := by
  induction lines generalizing inFiller with
  | nil => rfl
  | cons line rest ih =>
      have mark : isMark line.bare = isMark line := rfl
      have opens : opensFiller line.bare = opensFiller line := rfl
      have tag : line.bare.tag = line.tag := rfl
      rw [List.map_cons, strip, strip, continuesInElse_bare, mark, opens, tag, ih, ih, ih]
      split_ifs <;> rfl

/-- Whether a container was added by fitting. -/
def Outcome.adds (outcome : Outcome) (segment : Segment) : Bool :=
  segment.name.any fun name => name ∈ outcome.auxiliary

/-- The containers added by fitting. -/
def Outcome.added (outcome : Outcome) : List Segment :=
  (containers outcome.lines).filter fun segment => outcome.adds segment

/-- The other containers, which were in the program before. -/
def Outcome.originals (outcome : Outcome) : List Segment :=
  (containers outcome.lines).filter fun segment => !outcome.adds segment

/-- The stripped body of the added container with a given name. -/
def Outcome.bodyOf (outcome : Outcome) (name : String) : Option (List Line) :=
  (outcome.added.find? fun segment => segment.name = some name).map
    fun segment => strip false segment.body

theorem Member.find_eq {members : List Member} {member : Member}
    (nodup : (memberNames members).Nodup) (listed : member ∈ members) :
    members.find? (fun other => other.relocation.name = member.relocation.name) = some member := by
  induction members with
  | nil => cases listed
  | cons first rest ih =>
      obtain ⟨new, nodup⟩ := List.nodup_cons.mp nodup
      rcases List.mem_cons.mp listed with rfl | listed
      · exact List.find?_cons_of_pos (decide_eq_true rfl)
      · have other : first.relocation.name ≠ member.relocation.name := fun same =>
          new (List.mem_map.mpr ⟨member, listed, same.symm⟩)
        rw [List.find?_cons_of_neg (by simpa using other), ih nodup listed]

section Program

variable {limits : Limits} {lines : List Line} {groups : List Group} {outcome : Outcome}

/-- The added containers are the auxiliary ones of the groups. -/
theorem filter_containersOf (adds : Segment → Bool)
    (original : ∀ group ∈ groups, adds group.original = false)
    (auxiliary : ∀ member ∈ groups.flatMap Group.members, adds member.segment) :
    (containersOf groups).filter (fun segment => !adds segment) = groups.map Group.original ∧
      (containersOf groups).filter (fun segment => adds segment) =
        (groups.flatMap Group.members).map Member.segment := by
  induction groups with
  | nil => exact ⟨rfl, rfl⟩
  | cons group rest ih =>
      obtain ⟨first, others⟩ := List.forall_mem_cons.mp original
      rw [List.flatMap_cons, List.forall_mem_append] at auxiliary
      obtain ⟨left, right⟩ := ih others auxiliary.2
      have members : ∀ segment ∈ group.members.map Member.segment, adds segment := by
        intro segment listed
        obtain ⟨member, belongs, rfl⟩ := List.mem_map.mp listed
        exact auxiliary.1 member belongs
      rw [containersOf, List.flatMap_cons, ← containersOf, Group.containers, List.flatMap_cons,
        List.filter_append, List.filter_append, left, right, List.map_append]
      constructor
      · rw [List.filter_cons_of_pos (by simp [first]), List.filter_eq_nil_iff.mpr]
        · rfl
        · exact fun segment listed => by simp [members segment listed]
      · rw [List.filter_cons_of_neg (by simp [first]), List.filter_eq_self.mpr members]

/-- The containers of a fitted program: those of the program, and the auxiliary ones. -/
theorem fitProgram_containers (conditionals : 1 ≤ limits.conditionals)
    (fits : fitProgram limits lines = .ok outcome) :
    ∃ groups, Groups limits (programSupply (fuseHealth lines))
        (segments headerName? (fuseHealth lines)) groups ∧
      outcome.auxiliary = auxiliaryOf groups ∧ outcome.auxiliary.Nodup ∧
      outcome.originals = groups.map (fun group => group.original.bare) ∧
      outcome.added = (groups.flatMap Group.members).map (fun member => member.segment.bare) := by
  obtain ⟨groups, fitted, auxiliary, all⟩ := fitProgram_groups conditionals fits
  obtain ⟨behind, fresh⟩ := fitted.fresh (segments_sound (fitProgram_eq_ok.mp fits).1)
  have original (group) (listed : group ∈ groups) : outcome.adds group.original.bare = false := by
    -- The names of containers of the program were taken from the start.
    have taken : ∀ name ∈ group.segment.name, name ∈ (programSupply (fuseHealth lines)).taken := by
      intro name named
      refine List.mem_filterMap.mpr ⟨group.segment, ?_, named⟩
      rw [← fitted.segments]
      exact List.mem_map.mpr ⟨group, listed, rfl⟩
    unfold Outcome.adds
    rcases named : group.segment.name with _ | name
    · simp [Segment.bare, Group.original, named]
    · have new : name ∉ outcome.auxiliary := fun member =>
        fresh.new name (auxiliary ▸ member) (taken name named)
      simpa [Segment.bare, Group.original, named] using new
  have member (member) (listed : member ∈ groups.flatMap Group.members) :
      outcome.adds member.segment.bare := by
    refine decide_eq_true ?_
    rw [auxiliary, ← memberNames_flatMap]
    exact List.mem_map.mpr ⟨member, listed, rfl⟩
  obtain ⟨originals, added⟩ := filter_containersOf (fun segment => outcome.adds segment.bare)
    original member
  refine ⟨groups, fitted, auxiliary, auxiliary ▸ fresh.nodup, ?_, ?_⟩
  · rw [Outcome.originals, all, List.filter_map]
    exact (congrArg (List.map Segment.bare) originals).trans (List.map_map ..)
  · rw [Outcome.added, all, List.filter_map]
    exact (congrArg (List.map Segment.bare) added).trans (List.map_map ..)

theorem stripped_eq (fitted : Fitted) :
    strip false (fitted.outcome.lines.map Line.bare) = fitted.stripped := by
  rw [strip_bare, Fitted.outcome, strip_append_marks, Fitted.stripped]
  intro line member
  obtain ⟨number, -, rfl⟩ := List.mem_map.mp member
  exact isMark_trailingLine number

/-- The bodies of auxiliary containers are found by their names. -/
theorem bodyOf_eq {members : List Member} {member : Member}
    (added : outcome.added = members.map fun member => member.segment.bare)
    (nodup : (memberNames members).Nodup) (listed : member ∈ members) :
    outcome.bodyOf member.relocation.name = some member.fitted.stripped := by
  have found := Member.find_eq nodup listed
  unfold Outcome.bodyOf
  rw [added, List.find?_map]
  simp only [Function.comp_def, Segment.bare, Member.segment, Option.some.injEq, found,
    Option.map_some, stripped_eq]

/-- Only names of auxiliary containers are found. -/
theorem mem_auxiliary_of_bodyOf {name : String} {body : List Line}
    (found : outcome.bodyOf name = some body) : name ∈ outcome.auxiliary := by
  unfold Outcome.bodyOf at found
  obtain ⟨segment, foundSegment, -⟩ := Option.map_eq_some_iff.mp found
  have named : segment.name = some name := by simpa using List.find?_some foundSegment
  have added := (List.mem_filter.mp (List.mem_of_find?_eq_some foundSegment)).2
  simpa [Outcome.adds, named] using added

/-- Lines that set the maximal health are no calls. -/
theorem not_calls_flagged (line : Line) (amount : String) (heal : Bool) (name : String) :
    ¬ (flagged line amount heal).Calls name := by
  intro calls
  have texts := congrArg (fun text => text.toList.head?) calls.2
  simp [flagged, maxHealth, callLine] at texts

/-- So the calls in a fused program are those of the program. -/
theorem calls_of_mem_fuseHealth {line : Line} {name : String} (member : line ∈ fuseHealth lines)
    (calls : line.Calls name) : line ∈ lines := by
  rcases mem_fuseHealth member with ⟨member, -⟩ | ⟨source, amount, heal, -, rfl⟩
  · exact member
  · exact absurd calls (not_calls_flagged source amount heal name)

theorem apart_fuseHealth {bodyOf : String → Option (List Line)} (apart : Apart bodyOf lines) :
    Apart bodyOf (fuseHealth lines) :=
  fun line member name calls => apart line (calls_of_mem_fuseHealth member calls) name calls

/-- Fitting loses, repeats and reorders nothing. In a fitted program, the containers of the program
keep their headers and their order, and the auxiliary ones have the names that are reported. Putting
the stripped auxiliary containers in the place of their calls gives the stripped containers of the
program and nothing else, and uses each auxiliary container exactly once. -/
theorem fitProgram_expands (conditionals : 1 ≤ limits.conditionals)
    (fits : fitProgram limits lines = .ok outcome)
    (apart : ∀ line ∈ lines, ∀ name ∈ outcome.auxiliary, ¬ line.Calls name) :
    outcome.originals.map Segment.header = (containers (fuseHealth lines)).map Segment.header ∧
      outcome.added.map Segment.header =
        outcome.auxiliary.map (fun name => some (headerLine name)) ∧
      outcome.auxiliary.Nodup ∧
      ∃ uses : List (List String),
        List.Forall₂ (fun pair used =>
            ExpandsOnly outcome.bodyOf (strip false pair.1.body) (strip false pair.2.body) used)
          (outcome.originals.zip (containers (fuseHealth lines))) uses ∧
        uses.flatten.Perm outcome.auxiliary := by
  obtain ⟨groups, fitted, auxiliary, nodup, originals, added⟩ :=
    fitProgram_containers conditionals fits
  have sources : containers (fuseHealth lines) = groups.map (fun group => group.segment.bare) := by
    rw [containers_eq, ← fitted.segments, List.map_map]
    rfl
  have found (member) (listed : member ∈ groups.flatMap Group.members) :
      outcome.bodyOf member.relocation.name = some member.fitted.stripped :=
    bodyOf_eq added (by rw [memberNames_flatMap, ← auxiliary]; exact nodup) listed
  have fusedApart : Apart outcome.bodyOf (fuseHealth lines) := by
    refine apart_fuseHealth fun line member name calls => ?_
    rw [Option.eq_none_iff_forall_ne_some]
    exact fun body body_eq => apart line member name (mem_auxiliary_of_bodyOf body_eq) calls
  obtain ⟨uses, expands, permuted⟩ := fitted.expands
    (segments_sound (fitProgram_eq_ok.mp fits).1)
    (fun segment listed => fusedApart.subset (segments_subset listed)) found
  refine ⟨?_, ?_, nodup, uses, ?_, auxiliary ▸ permuted⟩
  · rw [originals, sources, List.map_map, List.map_map]
    rfl
  · rw [added, auxiliary, ← memberNames_flatMap, List.map_map, memberNames, List.map_map]
    rfl
  · rw [originals, sources, List.zip_map', List.forall₂_map_left_iff]
    refine expands.imp fun group used expanded => ?_
    simp only [Group.original, Segment.bare]
    rw [stripped_eq, strip_bare]
    exact expanded.only

end Program

theorem fitProgram_expands_crowded :
    ∃ outcome, fitProgram ⟨1, 1⟩ crowded = .ok outcome ∧
      outcome.auxiliary = ["f 1", "f 2"] ∧
      (∀ line ∈ crowded, ∀ name ∈ outcome.auxiliary, ¬ line.Calls name) ∧
      ∃ uses : List (List String),
        List.Forall₂ (fun pair used =>
            ExpandsOnly outcome.bodyOf (strip false pair.1.body) (strip false pair.2.body) used)
          (outcome.originals.zip (containers (fuseHealth crowded))) uses ∧
        uses.flatten.Perm ["f 1", "f 2"] := by
  have apart : ∀ line ∈ crowded, ∀ name ∈ (fitContainers ⟨1, 1⟩ crowded).reindent.auxiliary,
      ¬ line.Calls name := by
    rw [auxiliary_crowded]
    decide
  obtain ⟨-, -, -, expands⟩ := fitProgram_expands (by decide) fitProgram_crowded apart
  rw [auxiliary_crowded] at expands
  exact ⟨_, fitProgram_crowded, auxiliary_crowded, apart, expands⟩

end Fitting

end StatScript
