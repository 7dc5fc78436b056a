import StatScript.Proofs.Fitting.Depth

/-!
# Settled lines

A body is settled if fitting keeps each of its lines. What fitting writes is settled, when its fillers
are read as conditionals and its placeholders as those of the program.

Results:
1. `Kept.judge_eq`: the rules for kept lines agree with the verdict on them.
2. `Course.settled`: a fitted body is settled.
3. `fitProgram_settled`: so is each container of a fitted program.
-/

namespace StatScript.Fitting

/-! ## Kept lines -/

/-- `Kept limits room line next`: the line is kept where it stands, outside fillers, and `next` is the
room behind it. -/
inductive Kept (limits : Limits) (room : Room) (line : Line) : Room → Prop
  | opens : line.tag.opens → room.place = .outside → room.openings < limits.conditionals →
      Kept limits room line
        { room with place := .conditional, openings := room.openings + 1, inside := {} }
  | elseOpen : line.tag = .elseOpen → room.place = .conditional →
      Kept limits room line { room with inside := {} }
  | closes : line.tag.closes → room.place = .conditional →
      Kept limits room line { room with place := .outside }
  | changeOutside {kind : ChangeKind} : line.tag = .change kind → room.place = .outside →
      room.outside.get kind < limits.changes →
      Kept limits room line { room with outside := room.outside.bump kind }
  | changeInside {kind : ChangeKind} : line.tag = .change kind → room.place = .conditional →
      room.inside.get kind < limits.changes →
      Kept limits room line { room with inside := room.inside.bump kind }
  | placeholderOutside : isPlaceholder line → room.place = .outside →
      Kept limits room line { room with openings := 0, outside := {} }
  | placeholderInside : isPlaceholder line → room.place = .conditional →
      Kept limits room line { room with inside := {} }
  | other : line.tag.isPlain → (∀ kind, line.tag ≠ .change kind) → isPlaceholder line = false →
      Kept limits room line room

/-- Lines that are kept one after another, up to an end outside conditionals. -/
inductive Settled (limits : Limits) : Room → List Line → Prop
  | nil {room : Room} : room.place = .outside → Settled limits room []
  | cons {room next : Room} {line : Line} {rest : List Line} :
      Kept limits room line next → Settled limits next rest → Settled limits room (line :: rest)

section Kept

variable {limits : Limits} {room next : Room} {line : Line} {lines : List Line}

theorem isPlaceholder_tag (placeholder : isPlaceholder line) : line.tag = .comment := by
  unfold isPlaceholder at placeholder
  simp only [Bool.and_eq_true, decide_eq_true_eq] at placeholder
  exact placeholder.1

/-- A kept line has the verdict to be kept. -/
theorem Kept.judge_eq (kept : Kept limits room line next) :
    judge limits room line = ⟨false, .keep next⟩ := by
  cases kept with
  | opens opens place free =>
      rw [judge_opens opens]
      simp [place, openAction, Nat.not_le_of_gt free]
  | elseOpen tag place => simp [judge, tag]
  | closes closes place =>
      unfold judge
      cases tag : line.tag <;> simp_all [Tag.closes]
  | changeOutside tag place free =>
      rw [judge_change tag]
      simp [changeVerdict, place, outsideAction, free]
  | changeInside tag place free =>
      rw [judge_change tag]
      simp [changeVerdict, place, insideAction, free]
  | placeholderOutside placeholder place =>
      have tag := isPlaceholder_tag placeholder
      simp [judge, tag, placeholder, placeholderVerdict, place]
  | placeholderInside placeholder place =>
      have tag := isPlaceholder_tag placeholder
      simp [judge, tag, placeholder, placeholderVerdict, place]
  | other plain change placeholder =>
      unfold judge
      cases tag : line.tag <;> simp_all [Tag.isPlain, Tag.opens, Tag.closesBody]

end Kept

/-! ## Written lines are settled -/

/-- The room that a reader of the written lines sees, to whom a filler is a conditional. -/
def Room.seen (room : Room) : Room :=
  match room.place with
  | .filler => { room with place := .conditional }
  | _ => room

section Seen

variable {limits : Limits} {room next : Room} {line : Line} {lines : List Line}

theorem Room.seen_eq (place : room.place ≠ .filler) : room.seen = room := by
  unfold Room.seen
  split
  · contradiction
  · rfl

theorem Room.seen_filler (place : room.place = .filler) :
    room.seen = { room with place := .conditional } := by
  unfold Room.seen
  rw [place]

theorem kept_change {kind : ChangeKind} (tag : line.tag = .change kind)
    (verdict : judge limits room line = ⟨false, .keep next⟩) :
    Kept limits room.seen line next.seen := by
  rw [judge_change tag] at verdict
  unfold changeVerdict at verdict
  obtain ⟨place, openings, outside, inside⟩ := room
  cases place with
  | outside =>
      simp only [outsideAction] at verdict
      split at verdict
      · next free =>
          cases verdict
          exact .changeOutside tag rfl free
      · split at verdict <;> cases verdict
  | conditional =>
      simp only [insideAction] at verdict
      split at verdict
      · next free =>
          cases verdict
          exact .changeInside tag rfl free
      · cases verdict
  | filler =>
      simp only at verdict
      split at verdict
      · next free =>
          cases verdict
          exact .changeInside tag rfl free
      · cases verdict

theorem kept_placeholder (placeholder : isPlaceholder line)
    (verdict : judge limits room line = ⟨false, .keep next⟩) :
    Kept limits room.seen line next.seen := by
  simp only [judge, isPlaceholder_tag placeholder, placeholder, if_true, placeholderVerdict]
    at verdict
  obtain ⟨place, openings, outside, inside⟩ := room
  cases place with
  | outside =>
      cases verdict
      exact .placeholderOutside placeholder rfl
  | conditional =>
      cases verdict
      exact .placeholderInside placeholder rfl
  | filler => cases verdict

theorem kept_plain (plain : line.tag.isPlain)
    (verdict : judge limits room line = ⟨false, .keep next⟩) :
    Kept limits room.seen line next.seen := by
  by_cases change : ∃ kind, line.tag = .change kind
  · obtain ⟨kind, tag⟩ := change
    exact kept_change tag verdict
  · by_cases placeholder : isPlaceholder line
    · exact kept_placeholder placeholder verdict
    · have kept : Kept limits room line room :=
        .other plain (not_exists.mp change) (Bool.eq_false_iff.mpr placeholder)
      have same := verdict.symm.trans kept.judge_eq
      cases same
      exact .other plain (not_exists.mp change) (Bool.eq_false_iff.mpr placeholder)

theorem kept_opens (opens : line.tag.opens) (place : room.place = .outside)
    (verdict : judge limits room line = ⟨false, .keep next⟩) : Kept limits room line next := by
  rw [judge_opens opens] at verdict
  obtain ⟨-, opened⟩ := Verdict.mk.inj verdict
  unfold openAction at opened
  split at opened
  · cases opened
  · next free =>
      cases opened
      exact .opens opens place (Nat.lt_of_not_le free)

theorem kept_closesBody (ends : line.tag.closesBody) (place : room.place = .conditional)
    (verdict : judge limits room line = ⟨false, .keep next⟩) : Kept limits room line next := by
  by_cases closes : line.tag.closes
  · have kept : Kept limits room line _ := .closes closes place
    cases verdict.symm.trans kept.judge_eq
    exact kept
  · have tag : line.tag = .elseOpen := by
      cases tag : line.tag <;> simp_all [Tag.closes, Tag.closesBody]
    have kept : Kept limits room line _ := .elseOpen tag place
    cases verdict.symm.trans kept.judge_eq
    exact kept

theorem kept_turn {position after : Position} (turns : ¬ line.tag.isPlain)
    (header : line.tag ≠ .header) (stepped : position.step line.tag = some after)
    (place : room.place ≠ .filler) (stands : room.StandsAt position)
    (verdict : judge limits room line = ⟨false, .keep next⟩) : Kept limits room line next := by
  cases opens : line.tag.opens with
  | true =>
      obtain ⟨rfl, -⟩ := step_opens opens stepped
      exact kept_opens opens (stands.place_eq_outside place) verdict
  | false =>
      have ends := Tag.closesBody_of_not_isPlain turns header opens
      exact kept_closesBody ends (stands.mpr (step_closesBody ends stepped).1) verdict

theorem get_empty_lt (changes : 1 ≤ limits.changes) (kind : ChangeKind) :
    Tally.get {} kind < limits.changes := by
  rw [Tally.get_empty]
  exact changes

/-- Behind a placeholder, the line that was divided off has room. -/
theorem kept_divideRest (changes : 1 ≤ limits.changes) (conditionals : 1 ≤ limits.conditionals)
    (place : room.place = .outside)
    (verdict : judge limits room line = ⟨false, .divideRest next⟩) :
    Kept limits { room with openings := 0, outside := {} } line next := by
  obtain ⟨_, openings, outside, inside⟩ := room
  obtain rfl : _ = Place.outside := place
  rcases change_or_opens verdict nofun with ⟨kind, tag, divided⟩ | ⟨opens, -, divided⟩
  · simp only [changeVerdict, outsideAction] at divided
    split at divided
    · cases divided
    · split at divided <;> cases divided
      exact .changeOutside tag rfl (get_empty_lt changes kind)
  · unfold openAction at divided
    split at divided <;> cases divided
    exact .opens opens rfl conditionals

/-- In a filler, the change it was opened for has room. -/
theorem kept_fill (changes : 1 ≤ limits.changes)
    (verdict : judge limits room line = ⟨false, .fill next⟩) :
    ∃ filled, Kept limits room fillerLine filled ∧ Kept limits filled line next.seen := by
  obtain ⟨kind, tag, place, rfl⟩ := judge_fill verdict
  have free : room.openings < limits.conditionals := by
    rw [judge_change tag] at verdict
    simp only [changeVerdict, place, outsideAction] at verdict
    split at verdict
    · cases verdict
    · split at verdict
      · assumption
      · cases verdict
  exact ⟨_, .opens rfl place free, .changeInside tag rfl (get_empty_lt changes kind)⟩

theorem kept_divideBody (changes : 1 ≤ limits.changes)
    (verdict : judge limits room line = ⟨false, .divideBody next⟩) :
    Kept limits { room with inside := {} } line next := by
  obtain ⟨kind, tag, place, rfl⟩ := judge_divideBody verdict
  exact .changeInside tag place (get_empty_lt changes kind)

theorem kept_call (limits : Limits) (room : Room) (name : String) :
    Kept limits room (callLine name) room :=
  .other rfl nofun rfl

end Seen

/-- A fitted body is settled. -/
theorem Course.settled {limits : Limits} {base : Option String} {position : Position} {room : Room}
    {supply : Supply} {lines : List Line} {fitted : Fitted} (changes : 1 ≤ limits.changes)
    (conditionals : 1 ≤ limits.conditionals)
    (course : Course limits base position room supply lines fitted) :
    Settled limits room.seen fitted.lines := by
  have unfilled {room : Room} {place : Place} (standing : room.place = place)
      (other : place ≠ .filler) : room.seen = room := Room.seen_eq (standing ▸ other)
  induction course with
  | done place =>
      rw [unfilled place nofun]
      exact .nil place
  | endFiller place _ ih =>
      rw [Room.seen_filler place]
      exact .cons (.closes rfl rfl) ih
  | plain plain verdict _ _ _ ih => exact .cons (kept_plain plain verdict) ih
  | turn turns header stepped verdict before behind stands _ _ ih =>
      rw [Room.seen_eq before]
      rw [Room.seen_eq behind] at ih
      exact .cons (kept_turn turns header stepped before stands verdict) ih
  | fill _ place verdict _ _ ih =>
      rw [unfilled place nofun]
      obtain ⟨filled, opened, kept⟩ := kept_fill changes verdict
      exact .cons opened (.cons kept ih)
  | moveRest _ place _ _ =>
      rw [unfilled place nofun]
      exact .cons (kept_call _ _ _) (.nil place)
  | moveBody _ _ _ _ _ _ ih => exact .cons (kept_call _ _ _) ih
  | markRest _ place behind _ _ verdict _ ih =>
      rw [unfilled place nofun]
      rw [Room.seen_eq behind] at ih
      exact .cons (.placeholderOutside (isPlaceholder_placeholderLine _) place)
        (.cons (kept_divideRest changes conditionals place verdict) ih)
  | markBody _ place behind _ _ verdict _ ih =>
      rw [unfilled place nofun]
      rw [unfilled behind nofun] at ih
      exact .cons (.placeholderInside (isPlaceholder_placeholderLine _) place)
        (.cons (kept_divideBody changes verdict) ih)

/-! ## Containers of a fitted program -/

theorem Settled.append_other {limits : Limits} {room : Room} {lines others : List Line}
    (settled : Settled limits room lines)
    (comments : ∀ line ∈ others, line.tag = .comment ∧ isPlaceholder line = false) :
    Settled limits room (lines ++ others) := by
  induction settled with
  | nil place =>
      induction others with
      | nil => exact .nil place
      | cons line rest ih =>
          obtain ⟨⟨tag, placeholder⟩, further⟩ := List.forall_mem_cons.mp comments
          refine .cons (.other ?_ ?_ placeholder) (ih further)
          · rw [tag]
            rfl
          · rw [tag]
            exact nofun
  | cons kept _ ih => exact .cons kept ih

theorem Kept.congr {limits : Limits} {room next : Room} {line other : Line}
    (kept : Kept limits room line next) (tag : other.tag = line.tag)
    (text : isPlaceholder other = isPlaceholder line) : Kept limits room other next := by
  cases kept with
  | opens opens place free => exact .opens (tag ▸ opens) place free
  | elseOpen opens place => exact .elseOpen (tag.trans opens) place
  | closes closes place => exact .closes (tag ▸ closes) place
  | changeOutside change place free => exact .changeOutside (tag.trans change) place free
  | changeInside change place free => exact .changeInside (tag.trans change) place free
  | placeholderOutside placeholder place => exact .placeholderOutside (text ▸ placeholder) place
  | placeholderInside placeholder place => exact .placeholderInside (text ▸ placeholder) place
  | other plain change placeholder =>
      exact .other (tag ▸ plain) (tag ▸ change) (text.trans placeholder)

/-- Whether lines are settled does not depend on their depths. -/
theorem Settled.congr {limits : Limits} {room : Room} {lines others : List Line}
    (settled : Settled limits room lines) (same : others.map Line.bare = lines.map Line.bare) :
    Settled limits room others := by
  induction settled generalizing others with
  | nil place =>
      rw [List.map_eq_nil_iff.mp same]
      exact .nil place
  | @cons room next line rest kept _ ih =>
      cases others with
      | nil => cases same
      | cons other others =>
          obtain ⟨first, further⟩ := List.cons.inj same
          have tag : other.bare.tag = line.bare.tag := congrArg Line.tag first
          have text : isPlaceholder other.bare = isPlaceholder line.bare :=
            congrArg isPlaceholder first
          exact .cons (kept.congr tag text) (ih further)

/-- What a body is fitted to is settled, with the comments behind it. -/
theorem settled_outcome {limits : Limits} (changes : 1 ≤ limits.changes)
    (conditionals : 1 ≤ limits.conditionals) (base : Option String) (supply : Supply)
    (lines : List Line) (headless : Headless lines) (nested : Nested .outside lines) :
    Settled limits {} (fit limits base {} supply lines).outcome.lines := by
  refine ((course_start limits base supply headless nested).settled changes
    conditionals).append_other ?_
  intro line member
  obtain ⟨number, -, rfl⟩ := List.mem_map.mp member
  exact ⟨rfl, isPlaceholder_trailingLine number⟩

/-- Each container of a fitted program is settled. -/
theorem fitProgram_settled {limits : Limits} {lines : List Line} {outcome : Outcome}
    (changes : 1 ≤ limits.changes) (conditionals : 1 ≤ limits.conditionals)
    (fits : fitProgram limits lines = .ok outcome) :
    ∀ segment ∈ segments headerName? outcome.lines, Settled limits {} segment.body :=
  fitProgram_bodies conditionals fits (fun same settled => settled.congr same)
    fun base supply body headless nested _ =>
      settled_outcome changes conditionals base supply body headless nested

end StatScript.Fitting
