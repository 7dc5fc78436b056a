import StatScript.Proofs.Fitting.Depth
import StatScript.Proofs.Fitting.Health
import StatScript.Proofs.Fitting.Settled

/-!
# Comments and the room they take

Comments take no room. But a comment that begins like a placeholder starts the counting anew, in a named
container as well, where fitting never writes one. All other comments are remarks: fitting passes them on.

Results:
1. `fit_dropRemarks`: leaving out remarks commutes with fitting a body.
2. `Family.dropRemarks`, `Groups.dropRemarks`: so it does with the auxiliary containers and the program.
3. `harmless_iff`: of comments, remarks are what can be put into every named container without a change to
   anything but comments.
-/

namespace StatScript.Fitting

/-! ## Remarks -/

/-- A comment that is no placeholder. -/
def isRemark (line : Line) : Bool :=
  line.tag = .comment && !isPlaceholder line

/-- The lines that are not remarks. -/
def dropRemarks (lines : List Line) : List Line :=
  lines.filter fun line => !isRemark line

section Lines

variable {line : Line}

theorem isRemark_iff : isRemark line ↔ line.tag = .comment ∧ isPlaceholder line = false := by
  simp [isRemark]

@[simp]
theorem dropRemarks_remark (remark : isRemark line) (rest : List Line) :
    dropRemarks (line :: rest) = dropRemarks rest :=
  List.filter_cons_of_neg (by simp [remark])

@[simp]
theorem dropRemarks_other (other : isRemark line = false) (rest : List Line) :
    dropRemarks (line :: rest) = line :: dropRemarks rest :=
  List.filter_cons_of_pos (by simp [other])

@[simp]
theorem dropRemarks_append (first second : List Line) :
    dropRemarks (first ++ second) = dropRemarks first ++ dropRemarks second :=
  List.filter_append first second

/-- A remark is passed on. -/
theorem judge_remark (remark : isRemark line) (limits : Limits) (room : Room) :
    judge limits room line = ⟨false, .keep room⟩ := by
  obtain ⟨tag, plain⟩ := isRemark_iff.mp remark
  simp only [judge, tag, plain]
  rfl

theorem staysInBody_remark (remark : isRemark line) : staysInBody line := by
  rw [staysInBody, (isRemark_iff.mp remark).1]
  rfl

/-- Remarks stay in the body that they stand in, so leaving them out does not move its end. -/
theorem staysInBody_or_remark : (fun line => !(!isRemark line) || staysInBody line) = staysInBody := by
  funext line
  cases remark : isRemark line with
  | true => exact (staysInBody_remark remark).symm
  | false => rfl

theorem takeWhile_dropRemarks (lines : List Line) :
    (dropRemarks lines).takeWhile staysInBody = dropRemarks (lines.takeWhile staysInBody) := by
  rw [dropRemarks, List.takeWhile_filter, staysInBody_or_remark, dropRemarks]

theorem dropWhile_dropRemarks (lines : List Line) :
    (dropRemarks lines).dropWhile staysInBody = dropRemarks (lines.dropWhile staysInBody) := by
  rw [dropRemarks, List.dropWhile_filter, staysInBody_or_remark, dropRemarks]

/-- No line that fitting adds is a remark. -/
theorem isRemark_inserted (inserted : Inserted line) : isRemark line = false := by
  cases inserted with
  | filler | closing | call => rfl
  | placeholder number => simp [isRemark]

/-- Nothing is left out of what is written before a line and the line itself. -/
theorem dropRemarks_written (closes : Bool) {lines : List Line}
    (others : ∀ line ∈ lines, isRemark line = false) :
    dropRemarks (fillerEnd closes ++ lines) = fillerEnd closes ++ lines := by
  refine List.filter_eq_self.mpr (List.forall_mem_append.mpr ⟨?_, ?_⟩)
  · cases closes <;> decide
  · intro line member
    rw [others line member, Bool.not_false]

end Lines

/-! ## Bodies -/

/-- Lines moved out, without remarks. -/
def Relocation.dropRemarks (relocation : Relocation) : Relocation :=
  { relocation with body := Fitting.dropRemarks relocation.body }

/-- A fitted body without remarks. -/
def Fitted.dropRemarks (fitted : Fitted) : Fitted :=
  { fitted with
    lines := Fitting.dropRemarks fitted.lines
    moved := fitted.moved.map Relocation.dropRemarks }

namespace Fitted

variable (lines : List Line) (fitted : Fitted)

@[simp]
theorem dropRemarks_after :
    (fitted.after lines).dropRemarks = fitted.dropRemarks.after (Fitting.dropRemarks lines) := by
  simp [dropRemarks, after]

@[simp]
theorem dropRemarks_afterFiller :
    (fitted.afterFiller lines).dropRemarks =
      fitted.dropRemarks.afterFiller (Fitting.dropRemarks lines) := by
  simp [dropRemarks, afterFiller, after]

@[simp]
theorem dropRemarks_afterPlaceholder (number : Nat) :
    (fitted.afterPlaceholder lines number).dropRemarks =
      fitted.dropRemarks.afterPlaceholder (Fitting.dropRemarks lines) number := by
  simp [dropRemarks, afterPlaceholder, after]

@[simp]
theorem dropRemarks_afterCall (relocation : Relocation) :
    (fitted.afterCall lines relocation).dropRemarks =
      fitted.dropRemarks.afterCall (Fitting.dropRemarks lines) relocation.dropRemarks := by
  simp [dropRemarks, afterCall, after]

end Fitted

/-- A line that is no remark is treated alike with and without the remarks behind it. -/
theorem fit_dropRemarks_other {limits : Limits} {base : Option String} {room : Room} {supply : Supply}
    {line : Line} {rest : List Line} (other : isRemark line = false)
    (ih : ∀ (next : Room) (supply : Supply) {lines : List Line},
      lines.length < (line :: rest).length → fit limits base next supply (dropRemarks lines) =
        (fit limits base next supply lines).dropRemarks) :
    fit limits base room supply (line :: dropRemarks rest) =
      (fit limits base room supply (line :: rest)).dropRemarks := by
  have shorter : rest.length < (line :: rest).length := Nat.lt_succ_self _
  have behind {inserted : Line} (new : Inserted inserted) :
      ∀ written ∈ [inserted, line], isRemark written = false :=
    List.forall_mem_cons.mpr ⟨isRemark_inserted new, List.forall_mem_singleton.mpr other⟩
  have instead (name : String) : ∀ written ∈ [callLine name], isRemark written = false :=
    List.forall_mem_singleton.mpr (isRemark_inserted (.call name))
  cases verdict : judge limits room line with
  | mk closes action =>
      cases action with
      | keep next =>
          rw [fit_keep verdict, fit_keep verdict, ih next supply shorter, Fitted.dropRemarks_after,
            dropRemarks_written closes (List.forall_mem_singleton.mpr other)]
      | fill next =>
          rw [fit_fill verdict, fit_fill verdict, ih next supply shorter,
            Fitted.dropRemarks_afterFiller, dropRemarks_written closes (behind .filler)]
      | divideRest next =>
          cases base with
          | none =>
              rw [fit_markRest verdict, fit_markRest verdict, ih next _ shorter,
                Fitted.dropRemarks_afterPlaceholder, dropRemarks_written closes (behind (.placeholder _))]
          | some name =>
              rw [fit_moveRest verdict, fit_moveRest verdict, Fitted.dropRemarks_afterCall,
                dropRemarks_written closes (instead _), Relocation.dropRemarks, dropRemarks_other other]
              rfl
      | divideBody next =>
          cases base with
          | none =>
              rw [fit_markBody verdict, fit_markBody verdict, ih next _ shorter,
                Fitted.dropRemarks_afterPlaceholder, dropRemarks_written closes (behind (.placeholder _))]
          | some name =>
              have left : (rest.dropWhile staysInBody).length < (line :: rest).length :=
                Nat.lt_succ_of_le (List.dropWhile_sublist _).length_le
              rw [fit_moveBody verdict, fit_moveBody verdict, dropWhile_dropRemarks, ih room _ left,
                Fitted.dropRemarks_afterCall, dropRemarks_written closes (instead _),
                takeWhile_dropRemarks, Relocation.dropRemarks, dropRemarks_other other]

/-- Leaving out remarks commutes with fitting a body. -/
theorem fit_dropRemarks (limits : Limits) (base : Option String) (room : Room) (supply : Supply)
    (lines : List Line) :
    fit limits base room supply (dropRemarks lines) = (fit limits base room supply lines).dropRemarks := by
  cases lines with
  | nil =>
      have written := dropRemarks_written (decide (room.place = .filler)) (List.forall_mem_nil _)
      rw [List.append_nil] at written
      rw [fit, Fitted.dropRemarks, written, dropRemarks, List.filter_nil, fit]
      rfl
  | cons line rest =>
      by_cases remark : isRemark line
      · rw [dropRemarks_remark remark, fit_keep (judge_remark remark limits room),
          fit_dropRemarks limits base room supply rest, Fitted.dropRemarks_after, dropRemarks_append,
          dropRemarks_remark remark]
        rfl
      · have other : isRemark line = false := Bool.eq_false_iff.mpr remark
        rw [dropRemarks_other other]
        exact fit_dropRemarks_other other fun next supply lines shorter =>
          fit_dropRemarks limits base next supply lines
termination_by lines.length
decreasing_by
  · exact Nat.lt_succ_self _
  · exact shorter

/-! ## Programs -/

/-- A container without remarks. -/
def Segment.dropRemarks (segment : Segment) : Segment :=
  { segment with body := Fitting.dropRemarks segment.body }

/-- An auxiliary container without remarks. -/
def Member.dropRemarks (member : Member) : Member :=
  ⟨member.relocation.dropRemarks, member.fitted.dropRemarks⟩

/-- A group of containers without remarks. -/
def Group.dropRemarks (group : Group) : Group :=
  ⟨group.segment.dropRemarks, group.fitted.dropRemarks, group.members.map Member.dropRemarks⟩

section Groups

variable {limits : Limits} {base : Option String} {supply behind behind' : Supply}
  {pending : List Relocation} {members members' : List Member} {containers : List Segment}
  {groups groups' : List Group}

theorem Family.dropRemarks (family : Family limits base supply pending members behind) :
    Family limits base supply (pending.map Relocation.dropRemarks) (members.map Member.dropRemarks)
      behind := by
  induction family with
  | nil => exact .nil
  | cons fits _ ih =>
      rw [List.map_append] at ih
      refine .cons ?_ ih
      rw [fits]
      exact (fit_dropRemarks _ _ _ _ _).symm

theorem Groups.dropRemarks (fitted : Groups limits supply containers groups) :
    Groups limits supply (containers.map Segment.dropRemarks) (groups.map Group.dropRemarks) := by
  induction fitted with
  | nil => exact .nil
  | cons fits family _ ih =>
      refine .cons ?_ family.dropRemarks ih
      rw [fits]
      exact (fit_dropRemarks _ _ _ _ _).symm

theorem Family.unique (family : Family limits base supply pending members behind)
    (family' : Family limits base supply pending members' behind') :
    members = members' ∧ behind = behind' := by
  induction family generalizing members' with
  | nil =>
      cases family'
      exact ⟨rfl, rfl⟩
  | cons fits _ ih =>
      cases family' with
      | cons fits' family' =>
          subst fits fits'
          obtain ⟨rfl, rfl⟩ := ih family'
          exact ⟨rfl, rfl⟩

/-- A program is fitted into groups in one way only. -/
theorem Groups.unique (fitted : Groups limits supply containers groups)
    (fitted' : Groups limits supply containers groups') : groups = groups' := by
  induction fitted generalizing groups' with
  | nil =>
      cases fitted'
      rfl
  | cons fits family _ ih =>
      cases fitted' with
      | cons fits' family' further =>
          subst fits fits'
          obtain ⟨rfl, rfl⟩ := family.unique family'
          rw [ih further]

end Groups

section Cut

variable {line : Line}

theorem isRemark_header (header : line.tag = .header) : isRemark line = false := by
  rw [isRemark, header]
  rfl

/-- A remark is no placeholder, so it has no number. -/
theorem placeholderNumber?_remark (remark : isRemark line) : placeholderNumber? line.text = none := by
  obtain ⟨tag, plain⟩ := isRemark_iff.mp remark
  have other : Text.after? placeholderLead.toList line.text.toList = none := by
    simpa [isPlaceholder, tag, Text.beginsWith] using plain
  rw [placeholderNumber?, Text.between?, other]
  rfl

theorem segments_dropRemarks (naming : Line → Option String) (lines : List Line) :
    segments naming (dropRemarks lines) = (segments naming lines).map Segment.dropRemarks := by
  have cut_eq : cut naming (dropRemarks lines) =
      (dropRemarks (cut naming lines).1, (cut naming lines).2.map Segment.dropRemarks) := by
    induction lines with
    | nil => rfl
    | cons line rest ih =>
        by_cases header : line.tag = .header
        · rw [dropRemarks_other (isRemark_header header), cut_header header, cut_header header, ih]
          rfl
        rw [cut_other header]
        cases remark : isRemark line with
        | true => simp [remark, ih]
        | false => simp [remark, header, ih]
  rw [segments, cut_eq, segments]
  rfl

theorem programSupply_dropRemarks (lines : List Line) :
    programSupply (dropRemarks lines) = programSupply lines := by
  let number (line : Line) : Option Nat := placeholderNumber? line.text
  have numbers : (dropRemarks lines).filterMap number = lines.filterMap number := by
    induction lines with
    | nil => rfl
    | cons line rest ih =>
        cases remark : isRemark line with
        | true =>
            have none : number line = none := placeholderNumber?_remark remark
            simp [remark, none, ih]
        | false => simp [remark, List.filterMap_cons, ih]
  have names : ((segments headerName? lines).map Segment.dropRemarks).filterMap Segment.name =
      (segments headerName? lines).filterMap Segment.name := by
    rw [List.filterMap_map]
    rfl
  rw [programSupply, Supply.ofProgram, segments_dropRemarks, names, lastPlaceholder, numbers]
  rfl

theorem walk_dropRemarks (position : Position) (lines : List Line) :
    position.walk (dropRemarks lines) = position.walk lines := by
  induction lines generalizing position with
  | nil => rfl
  | cons line rest ih =>
      cases remark : isRemark line with
      | true =>
          have plain : line.tag.isPlain := by
            rw [(isRemark_iff.mp remark).1]
            rfl
          simp [remark, Position.walk, plain, ih]
      | false => simp [remark, Position.walk, ih]

end Cut

/-! ## Outcomes -/

/-- The lines that are no comments. -/
def dropComments (lines : List Line) : List Line :=
  lines.filter fun line => line.tag ≠ .comment

/-- A result without comments. -/
def Outcome.dropComments (outcome : Outcome) : Outcome :=
  { outcome with lines := Fitting.dropComments outcome.lines }

@[simp]
theorem dropComments_append (first second : List Line) :
    dropComments (first ++ second) = dropComments first ++ dropComments second :=
  List.filter_append first second

@[simp]
theorem dropComments_comment {line : Line} (comment : line.tag = .comment) (rest : List Line) :
    dropComments (line :: rest) = dropComments rest :=
  List.filter_cons_of_neg (by simp [comment])

@[simp]
theorem dropComments_other {line : Line} (other : line.tag ≠ .comment) (rest : List Line) :
    dropComments (line :: rest) = line :: dropComments rest :=
  List.filter_cons_of_pos (by simp [other])

@[simp]
theorem dropComments_dropRemarks (lines : List Line) :
    dropComments (dropRemarks lines) = dropComments lines := by
  rw [dropComments, dropRemarks, List.filter_filter, dropComments]
  refine List.filter_congr fun line _ => ?_
  cases remark : isRemark line with
  | true => simp [(isRemark_iff.mp remark).1]
  | false => simp

namespace Outcome

@[simp]
theorem dropComments_append (first second : Outcome) :
    (first ++ second).dropComments = first.dropComments ++ second.dropComments :=
  congrArg (fun lines => Outcome.mk lines _ _ _) (Fitting.dropComments_append first.lines second.lines)

theorem dropComments_join (outcomes : List Outcome) :
    (join outcomes).dropComments = join (outcomes.map dropComments) := by
  induction outcomes with
  | nil => rfl
  | cons first rest ih => simp [join, ih]

end Outcome

/-- Comments do not change the depth of other lines. -/
theorem dropComments_reindentFrom (depth : Nat) (lines : List Line) :
    dropComments (Line.reindentFrom depth lines) = Line.reindentFrom depth (dropComments lines) := by
  induction lines generalizing depth with
  | nil => rfl
  | cons line rest ih =>
      by_cases comment : line.tag = .comment
      · have depth_eq : Line.depthAfter depth .comment = depth := rfl
        simp [Line.reindentFrom, depth_eq, comment, ih]
      · simp [Line.reindentFrom, comment, ih]

theorem Fitted.dropComments_outcome (fitted : Fitted) :
    fitted.dropRemarks.outcome.dropComments = fitted.outcome.dropComments := by
  simp [Outcome.dropComments, outcome, Fitted.dropRemarks]

theorem Member.dropComments_outcome (member : Member) :
    member.dropRemarks.outcome.dropComments = member.outcome.dropComments := by
  simp only [outcome, dropRemarks, Outcome.dropComments_append, Fitted.dropComments_outcome]
  rfl

theorem Group.dropComments_outcome (group : Group) :
    group.dropRemarks.outcome.dropComments = group.outcome.dropComments := by
  have members : ((group.members.map Member.dropRemarks).map Member.outcome).map Outcome.dropComments =
      (group.members.map Member.outcome).map Outcome.dropComments := by
    simp only [List.map_map]
    exact List.map_congr_left fun member _ => member.dropComments_outcome
  simp only [outcome, dropRemarks, Outcome.dropComments_append, Outcome.dropComments_join, members,
    Fitted.dropComments_outcome]
  rfl

/-- Programs that differ by remarks are fitted alike, comments apart. -/
theorem fitContainers_dropRemarks {limits : Limits} (conditionals : 1 ≤ limits.conditionals)
    {lines others : List Line} (same : dropRemarks others = dropRemarks lines) :
    (fitContainers limits others).dropComments = (fitContainers limits lines).dropComments := by
  have exists_fitted (lines : List Line) : ∃ groups,
      Groups limits (programSupply (dropRemarks lines)) (segments headerName? (dropRemarks lines)) groups ∧
        (fitContainers limits lines).dropComments =
          Outcome.join (groups.map fun group => group.outcome.dropComments) := by
    obtain ⟨groups, fitted, written⟩ := exists_groups conditionals (programSupply lines)
      (segments headerName? lines)
    refine ⟨groups.map Group.dropRemarks, ?_, ?_⟩
    · rw [programSupply_dropRemarks, segments_dropRemarks]
      exact fitted.dropRemarks
    · rw [fitContainers, written, Outcome.dropComments_join, List.map_map, List.map_map]
      exact congrArg _ (List.map_congr_left fun group _ => group.dropComments_outcome.symm)
  obtain ⟨groups, fitted, written⟩ := exists_fitted lines
  obtain ⟨groups', fitted', written'⟩ := exists_fitted others
  rw [same] at fitted'
  rw [written, written', fitted.unique fitted']

theorem Outcome.dropComments_reindent (outcome : Outcome) :
    outcome.reindent.dropComments = outcome.dropComments.reindent := by
  simp only [dropComments, reindent, Line.reindent, dropComments_reindentFrom]

/-- A program to which remarks are added or in which they are left out is fitted as before, comments apart. -/
theorem fitProgram_dropRemarks {limits : Limits} (conditionals : 1 ≤ limits.conditionals)
    {lines others : List Line} {outcome : Outcome} (same : dropRemarks others = dropRemarks lines)
    (flagged : ∀ line ∈ lines, Flagged line) (flagged' : ∀ line ∈ others, Flagged line)
    (fits : fitProgram limits lines = .ok outcome) :
    ∃ outcome', fitProgram limits others = .ok outcome' ∧
      outcome'.dropComments = outcome.dropComments := by
  obtain ⟨nested, rfl⟩ := fitProgram_eq_ok.mp fits
  rw [fuseHealth_eq_self flagged] at nested ⊢
  refine ⟨_, fitProgram_eq_ok.mpr ⟨?_, rfl⟩, ?_⟩
  · rw [fuseHealth_eq_self flagged', Nested, ← walk_dropRemarks, same, walk_dropRemarks]
    exact nested
  · rw [fuseHealth_eq_self flagged', Outcome.dropComments_reindent, Outcome.dropComments_reindent,
      fitContainers_dropRemarks conditionals same]

/-! ## Comments in named containers -/

/-- The next line stands in a named container. -/
def InNamed (before : List Line) : Prop :=
  ∃ first header name rest, before = first ++ header :: rest ∧ header.tag = .header ∧
    headerName? header = some name ∧ Headless rest

/-- The comment can be put anywhere into a named container of a program without a change to anything but
comments. -/
def Harmless (comment : Line) : Prop :=
  ∀ (limits : Limits) (before behind : List Line) (outcome : Outcome),
    1 ≤ limits.changes → 1 ≤ limits.conditionals → InNamed before →
    (∀ line ∈ before ++ behind, (Text.words line.text).head? ≠ some maxHealth) →
    fitProgram limits (before ++ behind) = .ok outcome →
    ∃ outcome', fitProgram limits (before ++ comment :: behind) = .ok outcome' ∧
      outcome'.auxiliary = outcome.auxiliary ∧ outcome'.fillers = outcome.fillers ∧
      dropComments outcome'.lines = dropComments outcome.lines

/-- A line whose first word is another does not set the maximal health. -/
theorem flagged_of_head {line : Line} (other : (Text.words line.text).head? ≠ some maxHealth) :
    Flagged line := by
  refine Option.eq_none_iff_forall_ne_some.mpr fun amount sets => other ?_
  rw [unflaggedAmount?_eq_some sets]
  rfl

theorem flagged_of_beginsWith {line : Line} {lead : String} (text : Text.beginsWith lead line.text)
    (head : lead.toList.head? = some '/') : Flagged line := by
  obtain ⟨rest, found⟩ := Option.isSome_iff_exists.mp text
  have text_eq : line.text = lead ++ String.ofList rest ++ "" := by
    rw [String.append_empty, ← String.toList_inj, String.toList_append, String.toList_ofList]
    exact Text.eq_append_of_after? found
  rw [Flagged, text_eq]
  exact unflaggedAmount?_append lead _ "" ⟨'/', head, rfl, by decide⟩

theorem harmless_remark {comment : Line} (remark : isRemark comment)
    (text : Text.beginsWith "//" comment.text) : Harmless comment := by
  intro limits before behind outcome _ conditionals _ other fits
  have flagged : ∀ line ∈ before ++ behind, Flagged line := fun line member =>
    flagged_of_head (other line member)
  have same : dropRemarks (before ++ comment :: behind) = dropRemarks (before ++ behind) := by
    simp [remark]
  have flagged' : ∀ line ∈ before ++ comment :: behind, Flagged line := by
    obtain ⟨first, second⟩ := List.forall_mem_append.mp flagged
    exact List.forall_mem_append.mpr
      ⟨first, List.forall_mem_cons.mpr ⟨flagged_of_beginsWith text rfl, second⟩⟩
  obtain ⟨outcome', fits', equal⟩ := fitProgram_dropRemarks conditionals same flagged flagged' fits
  obtain ⟨lines, auxiliary, -, fillers⟩ := Outcome.mk.inj equal
  exact ⟨outcome', fits', auxiliary, fillers, lines⟩

/-- A container with two changes and lines between them. -/
def pair (between : List Line) : List Line :=
  headerLine "f" :: change "a" :: between ++ [change "b"]
where
  change (name : String) : Line := { text := "stat " ++ name ++ " set 1", tag := .change .player }

theorem fillers_pair : (fitContainers ⟨1, 1⟩ (pair [])).fillers = 1 := by cbv

section Placeholder

variable {comment : Line} (placeholder : isPlaceholder comment)
include placeholder

/-- Behind a placeholder there is room for the second change again. -/
theorem fit_pair (base : Option String) (supply : Supply) :
    fit ⟨1, 1⟩ base {} supply [pair.change "a", comment, pair.change "b"] =
      { lines := [pair.change "a", comment, pair.change "b"], supply } := by
  have reset (room : Room) (place : room.place = .outside) : judge ⟨1, 1⟩ room comment =
      ⟨false, .keep { room with place := .outside, openings := 0, outside := {} }⟩ := by
    simp only [judge, isPlaceholder_tag placeholder, placeholder, placeholderVerdict, place]
    rfl
  rw [fit_keep rfl, fit_keep (reset _ rfl), fit_keep rfl, fit]
  rfl

theorem fillers_pair_placeholder : (fitContainers ⟨1, 1⟩ (pair [comment])).fillers = 0 := by
  have tag : comment.tag ≠ .header := by
    rw [isPlaceholder_tag placeholder]
    exact nofun
  have containers : segments headerName? (pair [comment]) =
      [⟨none, none, []⟩, ⟨some (headerLine "f"), headerName? (headerLine "f"),
        [pair.change "a", comment, pair.change "b"]⟩] := by
    show segments headerName? [headerLine "f", pair.change "a", comment, pair.change "b"] = _
    rw [segments, cut_header rfl, cut_other (by decide), cut_other tag, cut_other (by decide)]
    rfl
  rw [fitContainers, containers]
  simp only [fitSegments, fitSegment, fit_pair placeholder, fit, relocate]
  rfl

theorem flagged_placeholder : Flagged comment := by
  have text : Text.beginsWith placeholderLead comment.text := by
    simpa [isPlaceholder, isPlaceholder_tag placeholder] using placeholder
  exact flagged_of_beginsWith text rfl

/-- A placeholder in a named container does away with a filler that is needed. -/
theorem not_harmless_placeholder : ¬ Harmless comment := by
  intro harmless
  have named : InNamed [headerLine "f", pair.change "a"] :=
    ⟨[], headerLine "f", "f", [pair.change "a"], rfl, rfl, headerName?_headerLine (by decide),
      List.forall_mem_singleton.mpr nofun⟩
  obtain ⟨outcome, fits, -, fillers, -⟩ := harmless ⟨1, 1⟩ [headerLine "f", pair.change "a"]
    [pair.change "b"] _ (by decide) (by decide) named (by decide) (fitProgram_eq_ok.mpr ⟨rfl, rfl⟩)
  obtain ⟨-, rfl⟩ := fitProgram_eq_ok.mp fits
  have flagged : ∀ line ∈ pair [comment], Flagged line := by
    simp only [pair, List.cons_append, List.nil_append, List.forall_mem_cons]
    exact ⟨rfl, rfl, flagged_placeholder placeholder, rfl, nofun⟩
  have same : (fitContainers ⟨1, 1⟩ (pair [comment])).fillers =
      (fitContainers ⟨1, 1⟩ (pair [])).fillers := by
    rw [← fuseHealth_eq_self flagged]
    exact fillers
  rw [fillers_pair, fillers_pair_placeholder placeholder] at same
  cases same

end Placeholder

/-- Of comments, remarks are what can be put into every named container without a change to anything but
comments. -/
theorem harmless_iff {comment : Line} (tag : comment.tag = .comment)
    (text : Text.beginsWith "//" comment.text) : Harmless comment ↔ isPlaceholder comment = false := by
  refine ⟨fun harmless => ?_, fun plain => harmless_remark (isRemark_iff.mpr ⟨tag, plain⟩) text⟩
  exact Bool.eq_false_iff.mpr fun placeholder => not_harmless_placeholder placeholder harmless

theorem harmless_iff_note : Harmless { text := "// note", tag := .comment } :=
  (harmless_iff rfl (by decide)).mpr (by decide)

theorem not_harmless_unnamed : ¬ Harmless { text := "// function \"unnamed 1\"", tag := .comment } :=
  not_harmless_placeholder (by decide)

end StatScript.Fitting
