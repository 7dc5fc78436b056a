import StatScript.Fitting.Segment

/-!
# Where lines may stand

The check of a program carries the index and the text of the open conditional for its messages.
Whether a program passes depends on less: on the position of each line, which follows from the tags
before it.

Results:
1. `check_eq_ok_iff`: a program passes the check iff the walk over its tags ends outside.
2. `cut_flatten`, `segments_eq_of_flatten`: the containers of a program are the only way to cut it
   at its headers.
3. `nested_flatten`: a program is well nested iff each of its containers is.
-/

namespace StatScript

/-- Whether the line neither starts a container nor starts or ends a body. -/
def Tag.isPlain (tag : Tag) : Bool :=
  !(tag.opens || tag.closesBody) && tag ≠ .header

theorem Tag.isPlain_iff {tag : Tag} :
    tag.isPlain ↔ tag.opens = false ∧ tag.closesBody = false ∧ tag ≠ .header := by
  cases tag <;> simp [isPlain, opens, closesBody]

theorem Tag.closes_of_isPlain {tag : Tag} (plain : tag.isPlain) : tag.closes = false := by
  cases tag <;> first | rfl | cases plain

theorem Tag.closesBody_of_not_isPlain {tag : Tag} (turns : ¬ tag.isPlain) (header : tag ≠ .header)
    (opens : tag.opens = false) : tag.closesBody := by
  cases ends : tag.closesBody with
  | true => rfl
  | false => exact absurd (isPlain_iff.mpr ⟨opens, ends, header⟩) turns

theorem Tag.isPlain_change {tag : Tag} {kind : ChangeKind} (change : tag = .change kind) :
    tag.isPlain := by
  rw [change]
  rfl

namespace Fitting

/-! ## Positions -/

/-- Where a line stands: outside conditionals, or in the first or second body of one. -/
inductive Position where
  | outside
  | firstBody
  | secondBody
deriving DecidableEq, Repr

namespace Position

/-- The position behind a line with a given tag, if it may stand here. -/
def step (position : Position) (tag : Tag) : Option Position :=
  match position with
  | outside =>
      if tag.opens then some firstBody else if tag.closesBody then none else some outside
  | firstBody =>
      if tag.closes then some outside
      else if tag = .elseOpen then some secondBody
      else if tag.isPlain then some firstBody else none
  | secondBody =>
      if tag.closes then some outside else if tag.isPlain then some secondBody else none

/-- The position behind lines, if each of them may stand where it does. -/
def walk (position : Position) : List Line → Option Position
  | [] => some position
  | line :: rest => (position.step line.tag).bind fun next => next.walk rest

end Position

open Position

/-- Lines that may follow at a position and leave no conditional open. -/
def Nested (position : Position) (lines : List Line) : Prop :=
  position.walk lines = some outside

@[simp]
theorem step_plain {position : Position} {tag : Tag} (plain : tag.isPlain) :
    position.step tag = some position := by
  cases tag <;> cases position <;> first | rfl | cases plain

theorem step_opens {position after : Position} {tag : Tag} (opens : tag.opens)
    (stepped : position.step tag = some after) : position = outside ∧ after = firstBody := by
  cases tag <;> cases position <;> cases opens <;> cases stepped <;> exact ⟨rfl, rfl⟩

theorem step_closesBody {position after : Position} {tag : Tag} (ends : tag.closesBody)
    (stepped : position.step tag = some after) :
    position ≠ outside ∧ (after = outside ↔ tag.closes) := by
  cases tag <;> cases position <;> cases ends <;> cases stepped <;> decide

@[simp]
theorem walk_append (position : Position) (first second : List Line) :
    position.walk (first ++ second) = (position.walk first).bind fun next => next.walk second := by
  induction first generalizing position with
  | nil => rfl
  | cons line rest ih =>
      rw [List.cons_append, walk, walk]
      cases position.step line.tag with
      | none => rfl
      | some next => exact ih next

theorem walk_plain {position : Position} {lines : List Line}
    (plain : ∀ line ∈ lines, line.tag.isPlain) : position.walk lines = some position := by
  induction lines with
  | nil => rfl
  | cons line rest ih =>
      rw [walk, step_plain (plain line List.mem_cons_self)]
      exact ih fun other member => plain other (List.mem_cons_of_mem _ member)

theorem nested_cons {position : Position} {line : Line} {rest : List Line} :
    Nested position (line :: rest) ↔
      ∃ next, position.step line.tag = some next ∧ Nested next rest := by
  rw [Nested, walk, Option.bind_eq_some_iff]
  rfl

/-! ## The check -/

namespace Nesting

/-- The position that a check has reached. -/
def position : Nesting → Position
  | outside => .outside
  | body _ _ => .firstBody
  | elseBody _ _ => .secondBody

theorem step_position (nesting : Nesting) (index : Nat) (line : Line) :
    (nesting.step index line).toOption.map position = nesting.position.step line.tag := by
  unfold step
  cases line.tag <;> cases nesting <;> rfl

theorem finish_eq_ok_iff (nesting : Nesting) :
    nesting.finish = .ok () ↔ nesting.position = .outside := by
  cases nesting <;> simp [finish, position]

end Nesting

theorem checkFrom_eq_ok_iff (nesting : Nesting) (index : Nat) (lines : List Line) :
    checkFrom nesting index lines = .ok () ↔ Nested nesting.position lines := by
  induction lines generalizing nesting index with
  | nil => simp [checkFrom, Nesting.finish_eq_ok_iff, Nested, walk]
  | cons line rest ih =>
      have stepped := nesting.step_position index line
      rw [checkFrom, Nested, walk, ← stepped]
      cases nesting.step index line with
      | error error => simp [Except.toOption, bind, Except.bind]
      | ok next => exact ih next (index + 1)

/-- A program passes the check iff the walk over its tags ends outside. -/
theorem check_eq_ok_iff (lines : List Line) : check lines = .ok () ↔ Nested .outside lines :=
  checkFrom_eq_ok_iff .outside 0 lines

/-! ## Containers -/

/-- The lines of a container, its header in front. -/
def Segment.lines (segment : Segment) : List Line :=
  segment.header.toList ++ segment.body

/-- No line starts a container. -/
def Headless (lines : List Line) : Prop :=
  ∀ line ∈ lines, line.tag ≠ .header

/-- A container with a header, named by it, that ends before the next one. -/
structure Segment.Headed (naming : Line → Option String) (segment : Segment) : Prop where
  header : ∃ line, segment.header = some line ∧ line.tag = .header ∧ segment.name = naming line
  body : Headless segment.body

@[simp]
theorem cut_header {naming : Line → Option String} {line : Line} (tag : line.tag = .header)
    (rest : List Line) :
    cut naming (line :: rest) =
      ([], ⟨some line, naming line, (cut naming rest).1⟩ :: (cut naming rest).2) := by
  rw [cut]
  exact if_pos tag

@[simp]
theorem cut_other {naming : Line → Option String} {line : Line} (tag : line.tag ≠ .header)
    (rest : List Line) :
    cut naming (line :: rest) = (line :: (cut naming rest).1, (cut naming rest).2) := by
  rw [cut]
  exact if_neg tag

theorem headless_cons {line : Line} {rest : List Line} :
    Headless (line :: rest) ↔ line.tag ≠ .header ∧ Headless rest :=
  List.forall_mem_cons

theorem Headless.subset {first second : List Line} (headless : Headless second)
    (subset : first ⊆ second) : Headless first :=
  fun line member => headless line (subset member)

theorem cut_append {naming : Line → Option String} {first : List Line} (headless : Headless first)
    (second : List Line) :
    cut naming (first ++ second) = (first ++ (cut naming second).1, (cut naming second).2) := by
  induction first with
  | nil => rfl
  | cons line rest ih =>
      obtain ⟨tag, headless⟩ := headless_cons.mp headless
      simp [tag, ih headless]

/-- A cut into headed containers is the only one. -/
theorem cut_eq_of_flatten {naming : Line → Option String} {body : List Line}
    {containers : List Segment} (headless : Headless body)
    (headed : ∀ segment ∈ containers, segment.Headed naming) :
    cut naming (body ++ containers.flatMap Segment.lines) = (body, containers) := by
  have behind : cut naming (containers.flatMap Segment.lines) = ([], containers) := by
    clear headless
    induction containers with
    | nil => rfl
    | cons segment rest ih =>
        obtain ⟨⟨line, header, tag, name⟩, inner⟩ := headed segment List.mem_cons_self
        have others := ih fun other member => headed other (List.mem_cons_of_mem _ member)
        have whole : segment = ⟨some line, naming line, segment.body⟩ := by rw [← header, ← name]
        rw [whole]
        simp [Segment.lines, tag, cut_append inner, others]
  simp [cut_append headless, behind]

theorem cut_headed (naming : Line → Option String) (lines : List Line) :
    Headless (cut naming lines).1 ∧ ∀ segment ∈ (cut naming lines).2, segment.Headed naming := by
  induction lines with
  | nil => simp [cut, Headless]
  | cons line rest ih =>
      obtain ⟨headless, headed⟩ := ih
      by_cases tag : line.tag = .header
      · rw [cut_header tag]
        refine ⟨by simp [Headless], fun segment member => ?_⟩
        rcases List.mem_cons.mp member with rfl | member
        · exact ⟨⟨line, rfl, tag, rfl⟩, headless⟩
        · exact headed segment member
      · rw [cut_other tag]
        exact ⟨headless_cons.mpr ⟨tag, headless⟩, headed⟩

/-- Cutting a program loses nothing. -/
theorem cut_flatten (naming : Line → Option String) (lines : List Line) :
    (cut naming lines).1 ++ (cut naming lines).2.flatMap Segment.lines = lines := by
  induction lines with
  | nil => rfl
  | cons line rest ih =>
      by_cases tag : line.tag = .header
      · simpa [tag, Segment.lines] using ih
      · simpa [tag] using ih

/-- A program cut into a container without a header and headed ones has these containers. -/
theorem segments_eq_of_flatten {naming : Line → Option String} {body : List Line}
    {containers : List Segment} (headless : Headless body)
    (headed : ∀ segment ∈ containers, segment.Headed naming) :
    segments naming (body ++ containers.flatMap Segment.lines) =
      { header := none, name := none, body } :: containers := by
  rw [segments, cut_eq_of_flatten headless headed]

theorem mem_segments {naming : Line → Option String} {lines : List Line} {line : Line} :
    line ∈ lines ↔ ∃ segment ∈ segments naming lines,
      segment.header = some line ∨ line ∈ segment.body := by
  have flat : (segments naming lines).flatMap Segment.lines = lines := cut_flatten naming lines
  calc line ∈ lines
      ↔ line ∈ (segments naming lines).flatMap Segment.lines := by rw [flat]
    _ ↔ _ := by simp [List.mem_flatMap, Segment.lines]

theorem segments_subset {naming : Line → Option String} {lines : List Line} {segment : Segment}
    (listed : segment ∈ segments naming lines) : segment.body ⊆ lines :=
  fun _ member => mem_segments.mpr ⟨segment, listed, .inr member⟩

theorem nested_append_header {position : Position} {first second : List Line} {line : Line}
    (tag : line.tag = .header) :
    Nested position (first ++ line :: second) ↔ Nested position first ∧ Nested .outside second := by
  rw [Nested, walk_append, Nested]
  cases position.walk first with
  | none => simp
  | some next => cases next <;> simp [walk, tag, step, Tag.opens, Tag.closes, Tag.closesBody,
      Tag.isPlain, Nested]

/-- A program is well nested iff each of its containers is. -/
theorem nested_flatten {naming : Line → Option String} {body : List Line}
    {containers : List Segment} (headed : ∀ segment ∈ containers, segment.Headed naming) :
    Nested .outside (body ++ containers.flatMap Segment.lines) ↔
      Nested .outside body ∧ ∀ segment ∈ containers, Nested .outside segment.body := by
  induction containers generalizing body with
  | nil => simp
  | cons segment rest ih =>
      obtain ⟨⟨line, header, tag, -⟩, -⟩ := headed segment List.mem_cons_self
      rw [List.flatMap_cons, Segment.lines, header, Option.toList_some, List.append_assoc,
        List.singleton_append, nested_append_header tag,
        ih fun other member => headed other (List.mem_cons_of_mem _ member), List.forall_mem_cons]

end Fitting

end StatScript
