import StatScript.Fitting.Program
import StatScript.Proofs.Fitting.Course

/-!
# Ranges moved out of a body

What is moved out of a body are ranges of it that lie apart, and each of them begins with a line that takes
room. The first line of a body always has room, so it stays behind.

Results:
1. `parts_fit`: what is moved out of a body are parts of it.
2. `movedLines_fit_lt`: less is moved out of a body than it holds.
3. `Parts.exists_spans`: the positions at which the parts stand do not overlap.
-/

namespace StatScript

/-- Whether a line counts toward a limit: changes do, and the lines that open a conditional. -/
def Line.takesRoom (line : Line) : Bool :=
  match line.tag with
  | .change _ | .openAll | .openAny => true
  | _ => false

namespace Fitting

/-! ## Ranges -/

/-- `Parts lines ranges`: the ranges stand in the lines, in order and apart from one another, and each begins
with a line that takes room. -/
inductive Parts : List Line → List (List Line) → Prop
  | nil : Parts [] []
  | stay {lines : List Line} {ranges : List (List Line)} (line : Line) :
      Parts lines ranges → Parts (line :: lines) ranges
  | leave {line : Line} {lines : List Line} {ranges : List (List Line)} (range : List Line) :
      line.takesRoom → Parts lines ranges → Parts (line :: range ++ lines) ((line :: range) :: ranges)

theorem Parts.sublist {lines : List Line} {ranges : List (List Line)} (parts : Parts lines ranges) :
    ranges.flatten.Sublist lines := by
  induction parts with
  | nil => exact .slnil
  | stay line _ ih => exact .cons line ih
  | leave range _ _ ih => exact (List.Sublist.refl _).append ih

theorem Parts.begins {lines : List Line} {ranges : List (List Line)} (parts : Parts lines ranges) :
    ∀ range ∈ ranges, ∃ line more, range = line :: more ∧ line.takesRoom := by
  induction parts with
  | nil => exact nofun
  | stay _ _ ih => exact ih
  | leave range takes _ ih => exact List.forall_mem_cons.mpr ⟨⟨_, range, rfl, takes⟩, ih⟩

/-- Only lines that take room are not kept where they stand. -/
theorem takesRoom_of_ne_keep {limits : Limits} {room : Room} {line : Line} {action : Action}
    (judged : (judge limits room line).action = action) (moves : ∀ next, action ≠ .keep next) :
    line.takesRoom := by
  cases light : line.takesRoom with
  | true => rfl
  | false =>
      have opens : line.tag.opens = false := by
        cases tag : line.tag <;> simp_all [Line.takesRoom, Tag.opens]
      have change : ∀ kind, line.tag ≠ .change kind := by
        intro kind tag
        simp [Line.takesRoom, tag] at light
      obtain ⟨next, kept⟩ := judge_other limits room opens change
      exact absurd (judged.symm.trans kept) (moves next)

/-- What is moved out of a body are parts of it. -/
theorem parts_fit (limits : Limits) (base : Option String) (room : Room) (supply : Supply)
    (lines : List Line) : Parts lines ((fit limits base room supply lines).moved.map Relocation.body) := by
  refine fit_induction limits base
    (motive := fun _ lines fitted => Parts lines (fitted.moved.map Relocation.body))
    ?done ?keep ?fill ?moveRest ?moveBody ?mark room supply lines
  case done => exact fun _ _ => .nil
  case keep | fill | mark => exact fun _ ih => .stay _ ih
  case moveRest =>
      intro room next supply line rest name _ action
      have takes : line.takesRoom := takesRoom_of_ne_keep action (by simp)
      have whole := Parts.leave rest takes .nil
      rwa [List.append_nil] at whole
  case moveBody =>
      intro room next supply line rest name fitted _ action ih
      have takes : line.takesRoom := takesRoom_of_ne_keep action (by simp)
      -- The range ends with the body around it, and fitting goes on from there.
      have body := Parts.leave (rest.takeWhile staysInBody) takes ih
      rwa [List.cons_append, List.takeWhile_append_dropWhile] at body

/-- The first line of a container is never moved out of it. -/
theorem judge_start {limits : Limits} (conditionals : 1 ≤ limits.conditionals) (line : Line) :
    ∃ next, judge limits {} line = ⟨false, .keep next⟩ ∨ judge limits {} line = ⟨false, .fill next⟩ := by
  have free : ¬ limits.conditionals ≤ 0 := Nat.not_le_of_gt conditionals
  by_cases opens : line.tag.opens
  · rw [judge_opens opens]
    exact ⟨_, .inl (by simp only [openAction, if_neg free]; rfl)⟩
  · by_cases change : ∃ kind, line.tag = .change kind
    · obtain ⟨kind, tag⟩ := change
      rw [judge_change tag]
      simp only [changeVerdict, outsideAction]
      split
      · exact ⟨_, .inl rfl⟩
      · exact ⟨_, .inr (congrArg _ (if_pos conditionals))⟩
    · unfold judge placeholderVerdict
      split
      case h_7 =>
          split
          · exact ⟨_, .inl rfl⟩
          · exact ⟨_, .inl rfl⟩
      all_goals simp_all [Tag.opens]

/-- The first line of a body stays, so what is moved out of it are parts of the rest. -/
theorem parts_fit_start {limits : Limits} (conditionals : 1 ≤ limits.conditionals) (base : Option String)
    (supply : Supply) (line : Line) (rest : List Line) :
    Parts rest ((fit limits base {} supply (line :: rest)).moved.map Relocation.body) := by
  obtain ⟨next, kept | filled⟩ := judge_start conditionals line
  · rw [fit_keep kept]
    exact parts_fit limits base next supply rest
  · rw [fit_fill filled]
    exact parts_fit limits base next supply rest

theorem movedLines_eq (moved : List Relocation) :
    movedLines moved = (moved.map Relocation.body).flatten.length := by
  induction moved with
  | nil => rfl
  | cons relocation rest ih => rw [movedLines, ih, List.map_cons, List.flatten_cons, List.length_append]

/-- Less is moved out of a body than it holds. -/
theorem movedLines_fit_lt {limits : Limits} (conditionals : 1 ≤ limits.conditionals)
    (base : Option String) (supply : Supply) {lines : List Line} (nonempty : lines ≠ []) :
    movedLines (fit limits base {} supply lines).moved < lines.length := by
  cases lines with
  | nil => exact absurd rfl nonempty
  | cons line rest =>
      rw [movedLines_eq]
      exact Nat.lt_succ_of_le (parts_fit_start conditionals base supply line rest).sublist.length_le

/-! ## Positions -/

/-- The positions from `start` up to `stop`. -/
structure Span where
  start : Nat
  stop : Nat

/-- Positions with a number of lines put in front. -/
def Span.shift (count : Nat) (span : Span) : Span :=
  ⟨span.start + count, span.stop + count⟩

/-- The lines at given positions. -/
def Span.of (lines : List Line) (span : Span) : List Line :=
  lines.extract span.start span.stop

/-- `Spans lines spans ranges`: the ranges are what stands at the spans, which are not empty, lie within the lines
and do not overlap. -/
structure Spans (lines : List Line) (spans : List Span) (ranges : List (List Line)) : Prop where
  ranges_eq : ranges = spans.map (Span.of lines)
  proper : ∀ span ∈ spans, span.start < span.stop ∧ span.stop ≤ lines.length
  apart : spans.Pairwise fun first second => first.stop ≤ second.start

theorem Span.of_append (more lines : List Line) (span : Span) :
    (span.shift more.length).of (more ++ lines) = span.of lines := by
  have front : more.drop (span.start + more.length) = [] :=
    List.drop_eq_nil_of_le (Nat.le_add_left _ _)
  simp only [Span.of, Span.shift, List.extract_eq_take_drop, List.drop_append, Nat.add_sub_add_right, front,
    Nat.add_sub_cancel, List.nil_append]

/-- Spans behind some more lines. -/
theorem Spans.behind {lines : List Line} {spans : List Span} {ranges : List (List Line)}
    (found : Spans lines spans ranges) (more : List Line) :
    Spans (more ++ lines) (spans.map (Span.shift more.length)) ranges where
  ranges_eq := by
    rw [found.ranges_eq, List.map_map]
    exact List.map_congr_left fun span _ => (Span.of_append more lines span).symm
  proper := by
    intro _ listed
    obtain ⟨span, member, rfl⟩ := List.mem_map.mp listed
    obtain ⟨nonempty, within⟩ := found.proper span member
    simp only [Span.shift, List.length_append]
    omega
  apart := List.pairwise_map.mpr (found.apart.imp fun before => Nat.add_le_add_right before _)

/-- Parts of lines stand at spans of them. -/
theorem Parts.exists_spans {lines : List Line} {ranges : List (List Line)} (parts : Parts lines ranges) :
    ∃ spans, Spans lines spans ranges := by
  induction parts with
  | nil => exact ⟨[], rfl, nofun, .nil⟩
  | stay line _ ih =>
      obtain ⟨spans, found⟩ := ih
      exact ⟨_, found.behind [line]⟩
  | @leave line lines ranges range _ _ ih =>
      obtain ⟨spans, found⟩ := ih
      have later := found.behind (line :: range)
      refine ⟨⟨0, (line :: range).length⟩ :: spans.map (Span.shift (line :: range).length), ?_, ?_, ?_⟩
      · rw [List.map_cons, ← later.ranges_eq]
        simp [Span.of]
      · exact List.forall_mem_cons.mpr ⟨⟨Nat.succ_pos _, by simp⟩, later.proper⟩
      · refine List.pairwise_cons.mpr ⟨?_, later.apart⟩
        intro _ listed
        obtain ⟨span, -, rfl⟩ := List.mem_map.mp listed
        exact Nat.le_add_left _ _

end Fitting

end StatScript
