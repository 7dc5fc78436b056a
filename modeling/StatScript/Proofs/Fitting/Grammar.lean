import StatScript.Proofs.Fitting.Counting

/-!
# The language of programs

Which programs can be fitted, said by a grammar of their tags instead of a walk over them: containers
behind one another, each a sequence of plain lines and of conditionals with one body or two, and
nothing but plain lines in a body.

Results:
1. `isProgram_iff_nested`: the grammar describes the programs that pass the check.
2. `extendable_iff`: the beginnings of programs are what the walk does not refuse.
3. `check_eq_error_iff`: what the check reports is the first line at which a beginning of a program is
   none any more, or else the conditional that is still open.
4. `fitProgram_ok_iff_isProgram`: both for the fitting of a program.
-/

namespace StatScript.Fitting

/-! ## The grammar -/

/-- The tags of a conditional with one body or two. -/
inductive IsConditional : List Tag → Prop
  | single {opening closing : Tag} {body : List Tag} :
      opening.opens → (∀ tag ∈ body, tag.isPlain) → closing.closes →
      IsConditional (opening :: body ++ [closing])
  | double {opening closing : Tag} {first second : List Tag} :
      opening.opens → (∀ tag ∈ first, tag.isPlain) → (∀ tag ∈ second, tag.isPlain) →
      closing.closes → IsConditional (opening :: first ++ .elseOpen :: second ++ [closing])

/-- The tags of a container behind its header. -/
inductive IsBody : List Tag → Prop
  | nil : IsBody []
  | plain {tag : Tag} {rest : List Tag} : tag.isPlain → IsBody rest → IsBody (tag :: rest)
  | conditional {tags rest : List Tag} :
      IsConditional tags → IsBody rest → IsBody (tags ++ rest)

/-- The tags of a program: bodies with headers between them. -/
inductive IsProgram : List Tag → Prop
  | last {body : List Tag} : IsBody body → IsProgram body
  | cons {body rest : List Tag} :
      IsBody body → IsProgram rest → IsProgram (body ++ .header :: rest)

/-- Lines that some program begins with. -/
def Extendable (lines : List Line) : Prop :=
  ∃ more : List Line, IsProgram ((lines ++ more).map Line.tag)

namespace IsProgram

variable {tag : Tag} {tags rest : List Tag}

theorem plain (plain : tag.isPlain) (program : IsProgram rest) : IsProgram (tag :: rest) := by
  cases program with
  | last body => exact .last (.plain plain body)
  | cons body further => exact .cons (.plain plain body) further

theorem conditional (conditional : IsConditional tags) (program : IsProgram rest) :
    IsProgram (tags ++ rest) := by
  cases program with
  | last body => exact .last (.conditional conditional body)
  | cons body further =>
      rw [← List.append_assoc]
      exact .cons (.conditional conditional body) further

theorem header (program : IsProgram rest) : IsProgram (.header :: rest) :=
  .cons .nil program

end IsProgram

/-! ## The grammar and the walk -/

theorem walk_eq_foldlM (position : Position) (lines : List Line) :
    position.walk lines = (lines.map Line.tag).foldlM Position.step position := by
  induction lines generalizing position with
  | nil => rfl
  | cons line rest ih =>
      rw [Position.walk, List.map_cons, List.foldlM_cons]
      exact congrArg _ (funext ih)

section Sound

variable {tags : List Tag} {position : Position}

theorem foldlM_plain (plain : ∀ tag ∈ tags, tag.isPlain) :
    tags.foldlM Position.step position = some position := by
  induction tags with
  | nil => rfl
  | cons tag rest ih =>
      obtain ⟨first, others⟩ := List.forall_mem_cons.mp plain
      rw [List.foldlM_cons, step_plain first]
      exact ih others

theorem step_of_opens {tag : Tag} (opens : tag.opens) :
    Position.outside.step tag = some .firstBody := by
  simp [Position.step, opens]

theorem step_of_closes {tag : Tag} (inside : position ≠ .outside) (closes : tag.closes) :
    position.step tag = some .outside := by
  cases position with
  | outside => exact absurd rfl inside
  | firstBody | secondBody => simp [Position.step, closes]

/-- A conditional starts and ends outside. -/
theorem IsConditional.foldlM (conditional : IsConditional tags) :
    tags.foldlM Position.step .outside = some .outside := by
  cases conditional with
  | single opens plain closes =>
      rw [List.foldlM_append, List.foldlM_cons, step_of_opens opens]
      show (List.foldlM Position.step .firstBody _).bind _ = _
      rw [foldlM_plain plain]
      exact congrArg (Option.bind · _) (step_of_closes (by decide : Position.firstBody ≠ _) closes)
  | double opens first second closes =>
      rw [List.foldlM_append, List.foldlM_append, List.foldlM_cons, step_of_opens opens]
      show ((List.foldlM Position.step .firstBody _).bind _).bind _ = _
      rw [foldlM_plain first]
      show (List.foldlM Position.step .secondBody _).bind _ = _
      rw [foldlM_plain second]
      exact congrArg (Option.bind · _) (step_of_closes (by decide : Position.secondBody ≠ _) closes)

theorem IsBody.foldlM (body : IsBody tags) :
    tags.foldlM Position.step .outside = some .outside := by
  induction body with
  | nil => rfl
  | plain plain _ ih =>
      rw [List.foldlM_cons, step_plain plain]
      exact ih
  | conditional conditional _ ih =>
      rw [List.foldlM_append, conditional.foldlM]
      exact ih

theorem IsProgram.foldlM (program : IsProgram tags) :
    tags.foldlM Position.step .outside = some .outside := by
  induction program with
  | last body => exact body.foldlM
  | cons body _ ih =>
      rw [List.foldlM_append, body.foldlM]
      exact ih

end Sound

/-- The tags of the conditional that is open at a position, up to there. -/
inductive Begun : Position → List Tag → Prop
  | outside : Begun .outside []
  | firstBody {opening : Tag} {body : List Tag} :
      opening.opens → (∀ tag ∈ body, tag.isPlain) → Begun .firstBody (opening :: body)
  | secondBody {opening : Tag} {first second : List Tag} :
      opening.opens → (∀ tag ∈ first, tag.isPlain) → (∀ tag ∈ second, tag.isPlain) →
      Begun .secondBody (opening :: first ++ .elseOpen :: second)

/-- A step goes on with the open conditional, or ends it, or stays outside; then any program may
follow. -/
theorem Begun.step {position next : Position} {before : List Tag} {tag : Tag}
    (begun : Begun position before) (stepped : position.step tag = some next) :
    Begun next (before ++ [tag]) ∨
      next = .outside ∧ ∀ {rest}, IsProgram rest → IsProgram (before ++ tag :: rest) := by
  have extend {body : List Tag} (plain : ∀ tag ∈ body, tag.isPlain) (last : tag.isPlain) :
      ∀ other ∈ body ++ [tag], other.isPlain :=
    List.forall_mem_append.mpr ⟨plain, List.forall_mem_singleton.mpr last⟩
  cases begun with
  | outside =>
      rw [Position.step] at stepped
      split at stepped
      · next opens =>
          cases stepped
          exact .inl (.firstBody opens (List.forall_mem_nil _))
      · next opens =>
          split at stepped
          · cases stepped
          · next ends =>
              cases stepped
              refine .inr ⟨rfl, fun program => ?_⟩
              by_cases header : tag = .header
              · rw [header]
                exact program.header
              · have plain : tag.isPlain := Tag.isPlain_iff.mpr
                  ⟨Bool.eq_false_iff.mpr opens, Bool.eq_false_iff.mpr ends, header⟩
                exact program.plain plain
  | @firstBody opening body opens plain =>
      rw [Position.step] at stepped
      split at stepped
      · next closes =>
          cases stepped
          refine .inr ⟨rfl, fun program => ?_⟩
          rw [List.append_cons]
          exact program.conditional (.single opens plain closes)
      · split at stepped
        · next turns =>
            cases stepped
            rw [turns]
            exact .inl (.secondBody opens plain (List.forall_mem_nil _))
        · split at stepped
          · next last =>
              cases stepped
              exact .inl (.firstBody opens (extend plain last))
          · cases stepped
  | @secondBody opening first second opens plain plain' =>
      rw [Position.step] at stepped
      split at stepped
      · next closes =>
          cases stepped
          refine .inr ⟨rfl, fun program => ?_⟩
          rw [List.append_cons]
          exact program.conditional (.double opens plain plain' closes)
      · split at stepped
        · next last =>
            cases stepped
            refine .inl ?_
            rw [List.append_assoc, List.cons_append]
            exact .secondBody opens plain (extend plain' last)
        · cases stepped

theorem Begun.isProgram {position : Position} {before : List Tag} {lines : List Line}
    (begun : Begun position before) (nested : Nested position lines) :
    IsProgram (before ++ lines.map Line.tag) := by
  induction lines generalizing position before with
  | nil =>
      obtain rfl : position = .outside := Option.some.inj nested
      cases begun
      exact .last .nil
  | cons line rest ih =>
      obtain ⟨next, stepped, nested⟩ := nested_cons.mp nested
      rw [List.map_cons]
      rcases begun.step stepped with further | ⟨rfl, ended⟩
      · rw [List.append_cons]
        exact ih further nested
      · exact ended (ih .outside nested)

/-- The grammar describes the programs that pass the check. -/
theorem isProgram_iff_nested (lines : List Line) :
    IsProgram (lines.map Line.tag) ↔ Nested .outside lines := by
  refine ⟨fun program => ?_, Begun.outside.isProgram⟩
  rw [Nested, walk_eq_foldlM]
  exact program.foldlM

/-- The beginnings of programs are what the walk does not refuse. -/
theorem extendable_iff {lines : List Line} :
    Extendable lines ↔ ∃ position, Position.outside.walk lines = some position := by
  simp only [Extendable, isProgram_iff_nested, Nested, walk_append]
  constructor
  · rintro ⟨more, nested⟩
    obtain ⟨position, walked, -⟩ := Option.bind_eq_some_iff.mp nested
    exact ⟨position, walked⟩
  · rintro ⟨position, walked⟩
    rw [walked]
    -- At most the end of one conditional is missing.
    cases position with
    | outside => exact ⟨[], rfl⟩
    | firstBody | secondBody => exact ⟨[Line.closing], rfl⟩

/-! ## What is reported -/

/-- The error for a line that may not stand where it does. A plain line may stand anywhere. -/
def misplaced? (index : Nat) (line : Line) : Option StructureError :=
  match line.tag with
  | .header => some (.headerInsideConditional index line.text)
  | .openAll | .openAny => some (.nestedConditional index line.text)
  | .elseOpen => some (.elseWithoutIf index)
  | .close | .elseClose => some (.unmatchedClose index line.text)
  | _ => none

/-- The last line that opens a conditional, with its index. -/
inductive LastOpening : List Line → Nat → Line → Prop
  | mk {before behind : List Line} {line : Line} :
      line.tag.opens → (∀ other ∈ behind, other.tag.opens = false) →
      LastOpening (before ++ line :: behind) before.length line

/-- `Broken lines error`: the lines are no program, and the error says why. Either some line is the first
behind which no program is left that begins with the lines so far, or there is no such line, and the
last conditional is never closed. -/
inductive Broken (lines : List Line) : StructureError → Prop
  | misplaced {before behind : List Line} {line : Line} {error : StructureError} :
      lines = before ++ line :: behind → Extendable before → ¬ Extendable (before ++ [line]) →
      misplaced? before.length line = some error → Broken lines error
  | unclosed {index : Nat} {line : Line} :
      Extendable lines → ¬ IsProgram (lines.map Line.tag) → LastOpening lines index line →
      Broken lines (.unclosedConditional index line.text)

section Opening

variable {lines : List Line} {line other : Line} {index : Nat}

theorem lastOpening_last (lines : List Line) (opens : line.tag.opens) :
    LastOpening (lines ++ [line]) lines.length line :=
  .mk opens (List.forall_mem_nil _)

theorem LastOpening.append (opening : LastOpening lines index line)
    (other_opens : other.tag.opens = false) : LastOpening (lines ++ [other]) index line := by
  obtain ⟨opens, behind⟩ := opening
  rw [List.append_assoc, List.cons_append]
  exact .mk opens (List.forall_mem_append.mpr ⟨behind, List.forall_mem_singleton.mpr other_opens⟩)

theorem LastOpening.unique {index' : Nat} {line' : Line} (opening : LastOpening lines index line)
    (opening' : LastOpening lines index' line') : index = index' ∧ line = line' := by
  obtain @⟨before, behind, _, opens, closed⟩ := opening
  generalize same : before ++ line :: behind = lines at opening'
  obtain @⟨before', behind', _, opens', closed'⟩ := opening'
  rcases List.append_eq_append_iff.mp same with ⟨between, rfl, rest⟩ | ⟨between, rfl, rest⟩
  · cases between with
    | nil =>
        rw [List.append_nil]
        exact ⟨rfl, (List.cons.inj rest).1⟩
    | cons first between =>
        have later : line' ∈ behind := by
          rw [(List.cons.inj rest).2]
          exact List.mem_append_right _ List.mem_cons_self
        rw [closed line' later] at opens'
        cases opens'
  · cases between with
    | nil =>
        rw [List.append_nil]
        exact ⟨rfl, (List.cons.inj rest).1.symm⟩
    | cons first between =>
        have later : line ∈ behind' := by
          rw [(List.cons.inj rest).2]
          exact List.mem_append_right _ List.mem_cons_self
        rw [closed' line later] at opens
        cases opens

end Opening

/-- What the check remembers of an open conditional is the last line that opened one. -/
def Nesting.Tracks (lines : List Line) : Nesting → Prop
  | outside => True
  | body index text | elseBody index text => ∃ line, LastOpening lines index line ∧ line.text = text

section Check

variable {nesting next : Nesting} {index : Nat} {line : Line} {lines before : List Line}
  {error : StructureError}

/-- A line is refused where the walk refuses it, with the error for its tag. -/
theorem Nesting.step_eq_error_iff :
    nesting.step index line = .error error ↔
      nesting.position.step line.tag = none ∧ misplaced? index line = some error := by
  unfold Nesting.step misplaced?
  cases line.tag <;> cases nesting <;>
    simp [Nesting.position, Position.step, Tag.opens, Tag.closes, Tag.closesBody, Tag.isPlain]

theorem Nesting.Tracks.step (tracks : nesting.Tracks before)
    (stepped : nesting.step before.length line = .ok next) : next.Tracks (before ++ [line]) := by
  unfold Nesting.step at stepped
  split at stepped <;> cases stepped
  · trivial
  · exact ⟨line, lastOpening_last before (by simp [*, Tag.opens]), rfl⟩
  · exact ⟨line, lastOpening_last before (by simp [*, Tag.opens]), rfl⟩
  · obtain ⟨opening, last, text⟩ := tracks
    exact ⟨opening, last.append (by simp [*, Tag.opens]), text⟩
  · trivial
  · trivial
  · have plain : line.tag.opens = false := by
      cases tag : line.tag <;> simp_all [Tag.opens]
    cases next with
    | outside => trivial
    | body _ _ | elseBody _ _ =>
        obtain ⟨opening, last, text⟩ := tracks
        exact ⟨opening, last.append plain, text⟩

/-- Where the walk goes the check goes too, and remembers the last line that opened a conditional. -/
theorem Nesting.Tracks.checkFrom {position : Position} (tracks : nesting.Tracks before)
    (walked : nesting.position.walk lines = some position) :
    ∃ next : Nesting, next.position = position ∧ next.Tracks (before ++ lines) ∧
      ∀ behind, Fitting.checkFrom nesting before.length (lines ++ behind) =
        Fitting.checkFrom next (before ++ lines).length behind := by
  induction lines generalizing nesting before with
  | nil =>
      rw [List.append_nil]
      exact ⟨nesting, Option.some.inj walked, tracks, fun _ => rfl⟩
  | cons line rest ih =>
      have stepped := nesting.step_position before.length line
      rw [Position.walk, ← stepped] at walked
      cases reached : nesting.step before.length line with
      | error error =>
          rw [reached] at walked
          cases walked
      | ok next =>
          rw [reached] at walked
          obtain ⟨last, position, tracks, same⟩ := ih (tracks.step reached) walked
          rw [List.append_assoc, List.singleton_append] at tracks same
          refine ⟨last, position, tracks, fun behind => ?_⟩
          rw [← same, List.length_append, List.cons_append, Fitting.checkFrom, reached]
          rfl

/-- Behind lines that the walk passes, the check reports a line that the walk refuses. -/
theorem check_refused {behind : List Line} {position : Position}
    (walked : Position.outside.walk before = some position)
    (refused : position.step line.tag = none) :
    check (before ++ line :: behind) = .error error ↔ misplaced? before.length line = some error := by
  have start : Nesting.Tracks [] .outside := trivial
  obtain ⟨nesting, rfl, -, same⟩ := start.checkFrom walked
  have stopped : check (before ++ line :: behind) = .error error ↔
      nesting.step before.length line = .error error := by
    rw [check, show 0 = ([] : List Line).length from rfl, same, List.nil_append, checkFrom]
    cases stepped : nesting.step before.length line with
    | error other => simp only [bind, Except.bind, Except.error.injEq]
    | ok next =>
        have walked := nesting.step_position before.length line
        rw [stepped, refused] at walked
        cases walked
  rw [stopped, Nesting.step_eq_error_iff, and_iff_right refused]

/-- Behind lines that the walk passes up to a body, the check reports the conditional that is open. -/
theorem check_unclosed {position : Position} (walked : Position.outside.walk lines = some position)
    (inside : position ≠ .outside) :
    ∃ index line, LastOpening lines index line ∧
      check lines = .error (.unclosedConditional index line.text) := by
  have start : Nesting.Tracks [] .outside := trivial
  obtain ⟨nesting, rfl, tracks, same⟩ := start.checkFrom walked
  have finished : check lines = nesting.finish := by
    have ended := same []
    rwa [List.append_nil] at ended
  cases nesting with
  | outside => exact absurd rfl inside
  | body index text | elseBody index text =>
      obtain ⟨line, opening, rfl⟩ := tracks
      exact ⟨index, line, opening, finished⟩

/-- The line at which the walk over lines stops. -/
theorem exists_refused {position : Position} (stopped : position.walk lines = none) :
    ∃ before line behind reached, lines = before ++ line :: behind ∧
      position.walk before = some reached ∧ reached.step line.tag = none := by
  induction lines generalizing position with
  | nil => cases stopped
  | cons line rest ih =>
      rw [Position.walk] at stopped
      cases stepped : position.step line.tag with
      | none => exact ⟨[], line, rest, position, rfl, rfl, stepped⟩
      | some next =>
          rw [stepped] at stopped
          obtain ⟨before, other, behind, reached, rfl, walked, refused⟩ := ih stopped
          refine ⟨line :: before, other, behind, reached, rfl, ?_, refused⟩
          rw [Position.walk, stepped]
          exact walked

theorem walk_snoc {position : Position} (walked : Position.outside.walk before = some position)
    (line : Line) : Position.outside.walk (before ++ [line]) = position.step line.tag := by
  simp [walked, Position.walk]

/-- What the check reports is why the lines are no program. -/
theorem check_eq_error_iff : check lines = .error error ↔ Broken lines error := by
  constructor
  · intro reported
    cases walked : Position.outside.walk lines with
    | some position =>
        have program : ¬ IsProgram (lines.map Line.tag) := by
          rw [isProgram_iff_nested, ← check_eq_ok_iff, reported]
          exact nofun
        have inside : position ≠ .outside := by
          rintro rfl
          exact program ((isProgram_iff_nested lines).mpr walked)
        obtain ⟨index, line, opening, unclosed⟩ := check_unclosed walked inside
        obtain rfl := Except.error.inj (reported.symm.trans unclosed)
        exact .unclosed (extendable_iff.mpr ⟨position, walked⟩) program opening
    | none =>
        obtain ⟨before, line, behind, position, rfl, passed, refused⟩ := exists_refused walked
        refine .misplaced rfl (extendable_iff.mpr ⟨position, passed⟩) ?_
          ((check_refused passed refused).mp reported)
        rw [extendable_iff, walk_snoc passed, refused]
        exact nofun
  · intro broken
    cases broken with
    | @misplaced before behind line error split extendable stopped named =>
        obtain ⟨position, passed⟩ := extendable_iff.mp extendable
        have refused : position.step line.tag = none := by
          rw [extendable_iff, walk_snoc passed] at stopped
          exact Option.eq_none_iff_forall_ne_some.mpr (not_exists.mp stopped)
        rw [split, check_refused passed refused]
        exact named
    | unclosed extendable program opening =>
        obtain ⟨position, walked⟩ := extendable_iff.mp extendable
        have inside : position ≠ .outside := by
          rintro rfl
          exact program ((isProgram_iff_nested lines).mpr walked)
        obtain ⟨index, line, opening', unclosed⟩ := check_unclosed walked inside
        obtain ⟨rfl, rfl⟩ := opening.unique opening'
        exact unclosed

end Check

end StatScript.Fitting
