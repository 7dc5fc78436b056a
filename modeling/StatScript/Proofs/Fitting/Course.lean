import StatScript.Fitting.Body
import StatScript.Proofs.Fitting.Nesting

/-!
# The course of fitting

What fitting does to a well nested body, line by line, as a derivation with one rule for each thing
that can happen. Statements about fitted bodies are proved by induction over their course, without
looking at verdicts again. Closing a filler is a rule of its own, so all other rules find the line
outside a filler or staying in it.

Main statement: `course_fit`, every fitted well nested body has a course.
-/

namespace StatScript.Fitting

/-! ## Verdicts -/

/-- The room agrees with the position: in the program's own conditionals and only there. -/
def Room.StandsAt (room : Room) (position : Position) : Prop :=
  room.place = .conditional ↔ position ≠ .outside

theorem Room.StandsAt.place_eq_outside {room : Room} (stands : room.StandsAt .outside)
    (filler : room.place ≠ .filler) : room.place = .outside := by
  cases place : room.place with
  | outside => rfl
  | conditional => exact absurd rfl (stands.mp place)
  | filler => exact absurd place filler

theorem Room.StandsAt.eq_outside {room : Room} {position : Position}
    (stands : room.StandsAt position) (place : room.place ≠ .conditional) :
    position = .outside :=
  Decidable.of_not_not fun inside => place (stands.mpr inside)

section Verdicts

variable {limits : Limits} {room next : Room} {line : Line} {kind : ChangeKind}
  {position after : Position}

theorem judge_opens (opens : line.tag.opens) :
    judge limits room line = ⟨room.place = .filler, openAction limits room⟩ := by
  unfold judge
  split <;> simp_all [Tag.opens]

theorem judge_change (tag : line.tag = .change kind) :
    judge limits room line = changeVerdict limits room kind := by
  simp only [judge, tag]

/-- All lines but changes and those that open a conditional are kept. -/
theorem judge_other (limits : Limits) (room : Room) (opens : line.tag.opens = false)
    (change : ∀ kind, line.tag ≠ .change kind) :
    ∃ next, (judge limits room line).action = .keep next := by
  unfold judge placeholderVerdict
  split
  case h_7 =>
      split
      · split <;> exact ⟨_, rfl⟩
      · exact ⟨_, rfl⟩
  all_goals simp_all [Tag.opens]

/-- A filler is closed in front of a line that is then treated as if it stood outside. -/
theorem judge_endFiller {action : Action} (verdict : judge limits room line = ⟨true, action⟩) :
    room.place = .filler ∧
      judge limits { room with place := .outside } line = ⟨false, action⟩ := by
  unfold judge at verdict ⊢
  split at verdict
  case h_1 tag | h_2 tag => simp_all [openAction]
  case h_6 kind tag =>
      unfold changeVerdict at verdict ⊢
      cases place : room.place <;> simp_all
      split at verdict <;> simp_all
  case h_7 tag =>
      unfold placeholderVerdict at verdict ⊢
      split at verdict
      · cases place : room.place <;> simp_all
      · cases verdict
  all_goals cases verdict

theorem changeVerdict_eq_keep (kept : changeVerdict limits room kind = ⟨false, .keep next⟩) :
    next.place = room.place := by
  unfold changeVerdict at kept
  cases place : room.place with
  | outside =>
      simp only [place, outsideAction] at kept
      split at kept
      · cases kept
        rfl
      · split at kept <;> cases kept
  | conditional =>
      simp only [place, insideAction] at kept
      split at kept <;> cases kept
      rfl
  | filler =>
      simp only [place] at kept
      split at kept <;> cases kept
      rfl

theorem placeholderVerdict_eq_keep (kept : placeholderVerdict room = ⟨false, .keep next⟩) :
    next.place = room.place := by
  unfold placeholderVerdict at kept
  cases place : room.place <;> simp only [place] at kept <;> cases kept <;> rfl

/-- A plain line is kept where it stands. -/
theorem judge_plain (plain : line.tag.isPlain)
    (verdict : judge limits room line = ⟨false, .keep next⟩) : next.place = room.place := by
  unfold judge at verdict
  split at verdict
  case h_6 kind tag => exact changeVerdict_eq_keep verdict
  case h_7 tag =>
      split at verdict
      · exact placeholderVerdict_eq_keep verdict
      · cases verdict
        rfl
  case h_8 => cases verdict; rfl
  all_goals
    rename_i tag
    rw [tag] at plain
    cases plain

/-- A line that starts or ends a body is kept only outside fillers. -/
theorem judge_turn (turns : ¬ line.tag.isPlain) (headless : line.tag ≠ .header)
    (stands : room.StandsAt position) (stepped : position.step line.tag = some after)
    (verdict : judge limits room line = ⟨false, .keep next⟩) :
    room.place ≠ .filler ∧ next.place ≠ .filler ∧ next.StandsAt after := by
  unfold Room.StandsAt at stands ⊢
  unfold judge at verdict
  split at verdict
  case h_1 tag | h_2 tag =>
      simp only [tag] at stepped
      unfold openAction at verdict
      cases position <;> cases stepped
      split at verdict <;> simp_all
      rw [← verdict.2]
      simp
  case h_3 tag | h_4 tag | h_5 tag =>
      simp only [tag] at stepped
      cases verdict
      cases position <;> cases stepped <;> simp_all
  all_goals simp_all [Tag.isPlain, Tag.opens, Tag.closesBody]

theorem openAction_ne_fill : openAction limits room ≠ .fill next := by
  unfold openAction
  split <;> exact nofun

theorem openAction_ne_divideBody : openAction limits room ≠ .divideBody next := by
  unfold openAction
  split <;> exact nofun

/-- A line that is not kept is a change or opens a conditional. -/
theorem change_or_opens {action : Action} (verdict : judge limits room line = ⟨false, action⟩)
    (moves : ∀ next, action ≠ .keep next) :
    (∃ kind, line.tag = .change kind ∧ changeVerdict limits room kind = ⟨false, action⟩) ∨
      (line.tag.opens ∧ room.place ≠ .filler ∧ openAction limits room = action) := by
  by_cases opens : line.tag.opens
  · rw [judge_opens opens] at verdict
    obtain ⟨place, opened⟩ := Verdict.mk.inj verdict
    exact .inr ⟨opens, of_decide_eq_false place, opened⟩
  · by_cases change : ∃ kind, line.tag = .change kind
    · obtain ⟨kind, tag⟩ := change
      rw [judge_change tag] at verdict
      exact .inl ⟨kind, tag, verdict⟩
    · obtain ⟨next, kept⟩ := judge_other limits room (Bool.eq_false_iff.mpr opens)
        (not_exists.mp change)
      rw [verdict] at kept
      exact absurd kept (moves next)

/-- Only a change outside conditionals opens a filler. -/
theorem judge_fill (verdict : judge limits room line = ⟨false, .fill next⟩) :
    ∃ kind, line.tag = .change kind ∧ room.place = .outside ∧
      next = { room with
        place := .filler, openings := room.openings + 1, inside := Tally.one kind } := by
  rcases change_or_opens verdict nofun with ⟨kind, tag, filled⟩ | ⟨-, -, opened⟩
  · refine ⟨kind, tag, ?_⟩
    unfold changeVerdict outsideAction insideAction at filled
    cases place : room.place <;> simp only [place] at filled <;> repeat' split at filled
    all_goals cases filled
    exact ⟨rfl, rfl⟩
  · exact absurd opened openAction_ne_fill

/-- The rest of a container is divided off only outside conditionals. -/
theorem judge_divideRest (verdict : judge limits room line = ⟨false, .divideRest next⟩)
    (stands : room.StandsAt position) (stepped : position.step line.tag = some after) :
    position = .outside ∧ room.place = .outside ∧ next.place ≠ .filler ∧ next.StandsAt after := by
  unfold Room.StandsAt at stands ⊢
  rcases change_or_opens verdict nofun with ⟨kind, tag, divided⟩ | ⟨opens, place, divided⟩
  · rw [tag, step_plain rfl] at stepped
    cases stepped
    unfold changeVerdict outsideAction insideAction at divided
    cases place : room.place <;> simp only [place] at divided <;> repeat' split at divided
    all_goals cases divided
    simp_all
  · obtain ⟨rfl, rfl⟩ := step_opens opens stepped
    unfold openAction at divided
    split at divided
    · cases divided
      cases standing : room.place <;> simp_all
    · cases divided

/-- The rest of a body is divided off only at a change in it. -/
theorem judge_divideBody (verdict : judge limits room line = ⟨false, .divideBody next⟩) :
    ∃ kind, line.tag = .change kind ∧ room.place = .conditional ∧
      next = { room with inside := Tally.one kind } := by
  rcases change_or_opens verdict nofun with ⟨kind, tag, divided⟩ | ⟨-, -, opened⟩
  · refine ⟨kind, tag, ?_⟩
    unfold changeVerdict outsideAction insideAction at divided
    cases place : room.place <;> simp only [place] at divided <;> repeat' split at divided
    all_goals cases divided
    exact ⟨rfl, rfl⟩
  · exact absurd opened openAction_ne_divideBody

end Verdicts

/-! ## Courses -/

/-- `Course limits base position room supply lines fitted`: from a position, with some room taken
and some names left, `lines` become `fitted`.

* `done`: nothing is left, outside conditionals.
* `endFiller`: a filler is closed, in front of a line or at the end.
* `plain`: a line that neither starts nor ends a body is written where it stands.
* `turn`: a line that starts or ends a body of the program is written.
* `fill`: a filler is opened for a change.
* `moveRest`, `moveBody`: in a named container, the rest of the container or of the body is moved out
  and called.
* `markRest`, `markBody`: in a container without a name, a placeholder is written before the line. -/
inductive Course (limits : Limits) (base : Option String) :
    Position → Room → Supply → List Line → Fitted → Prop
  | done {room : Room} {supply : Supply} :
      room.place = .outside → Course limits base .outside room supply [] { supply }
  | endFiller {room : Room} {supply : Supply} {lines : List Line} {fitted : Fitted} :
      room.place = .filler →
      Course limits base .outside { room with place := .outside } supply lines fitted →
      Course limits base .outside room supply lines (fitted.after [Line.closing])
  | plain {position : Position} {room next : Room} {supply : Supply} {line : Line}
      {rest : List Line} {fitted : Fitted} :
      line.tag.isPlain → judge limits room line = ⟨false, .keep next⟩ →
      next.place = room.place → room.StandsAt position →
      Course limits base position next supply rest fitted →
      Course limits base position room supply (line :: rest) (fitted.after [line])
  | turn {position after : Position} {room next : Room} {supply : Supply} {line : Line}
      {rest : List Line} {fitted : Fitted} :
      ¬ line.tag.isPlain → line.tag ≠ .header → position.step line.tag = some after →
      judge limits room line = ⟨false, .keep next⟩ →
      room.place ≠ .filler → next.place ≠ .filler → room.StandsAt position → next.StandsAt after →
      Course limits base after next supply rest fitted →
      Course limits base position room supply (line :: rest) (fitted.after [line])
  | fill {room next : Room} {supply : Supply} {line : Line} {rest : List Line} {fitted : Fitted}
      {kind : ChangeKind} :
      line.tag = .change kind → room.place = .outside →
      judge limits room line = ⟨false, .fill next⟩ →
      next = { room with
        place := .filler, openings := room.openings + 1, inside := Tally.one kind } →
      Course limits base .outside next supply rest fitted →
      Course limits base .outside room supply (line :: rest)
        (fitted.afterFiller [fillerLine, line])
  | moveRest {room next : Room} {supply : Supply} {line : Line} {rest : List Line}
      {name : String} :
      base = some name → room.place = .outside → Nested .outside (line :: rest) →
      judge limits room line = ⟨false, .divideRest next⟩ →
      Course limits base .outside room supply (line :: rest)
        (Fitted.afterCall [callLine (supply.nextName name).1]
          ⟨(supply.nextName name).1, line :: rest⟩ { supply := (supply.nextName name).2 })
  | moveBody {position : Position} {room next : Room} {supply : Supply} {line : Line}
      {rest : List Line} {name : String} {fitted : Fitted} :
      base = some name → room.place = .conditional → position ≠ .outside →
      (∀ moved ∈ line :: rest.takeWhile staysInBody, moved.tag.isPlain) →
      judge limits room line = ⟨false, .divideBody next⟩ →
      Course limits base position room (supply.nextName name).2 (rest.dropWhile staysInBody)
        fitted →
      Course limits base position room supply (line :: rest)
        (fitted.afterCall [callLine (supply.nextName name).1]
          ⟨(supply.nextName name).1, line :: rest.takeWhile staysInBody⟩)
  | markRest {after : Position} {room next : Room} {supply : Supply} {line : Line}
      {rest : List Line} {fitted : Fitted} :
      base = none → room.place = .outside → next.place ≠ .filler → next.StandsAt after →
      Position.outside.step line.tag = some after →
      judge limits room line = ⟨false, .divideRest next⟩ →
      Course limits base after next supply.nextPlaceholder.2 rest fitted →
      Course limits base .outside room supply (line :: rest)
        (fitted.afterPlaceholder [placeholderLine supply.nextPlaceholder.1, line]
          supply.nextPlaceholder.1)
  | markBody {position : Position} {room next : Room} {supply : Supply} {line : Line}
      {rest : List Line} {fitted : Fitted} :
      base = none → room.place = .conditional → next.place = .conditional →
      position ≠ .outside → line.tag.isPlain →
      judge limits room line = ⟨false, .divideBody next⟩ →
      Course limits base position next supply.nextPlaceholder.2 rest fitted →
      Course limits base position room supply (line :: rest)
        (fitted.afterPlaceholder [placeholderLine supply.nextPlaceholder.1, line]
          supply.nextPlaceholder.1)

section Fit

variable {limits : Limits} {base : Option String} {room next : Room} {supply : Supply}
  {line : Line} {rest : List Line} {closes : Bool} {name : String}

theorem fit_keep (verdict : judge limits room line = ⟨closes, .keep next⟩) :
    fit limits base room supply (line :: rest) =
      (fit limits base next supply rest).after (fillerEnd closes ++ [line]) := by
  rw [fit.eq_2 _ _ _ _ _ _ _ (congrArg Verdict.action verdict), verdict]

theorem fit_fill (verdict : judge limits room line = ⟨closes, .fill next⟩) :
    fit limits base room supply (line :: rest) =
      (fit limits base next supply rest).afterFiller (fillerEnd closes ++ [fillerLine, line]) := by
  rw [fit.eq_3 _ _ _ _ _ _ _ (congrArg Verdict.action verdict), verdict]

theorem fit_moveRest (verdict : judge limits room line = ⟨closes, .divideRest next⟩) :
    fit limits (some name) room supply (line :: rest) =
      Fitted.afterCall (fillerEnd closes ++ [callLine (supply.nextName name).1])
        ⟨(supply.nextName name).1, line :: rest⟩ { supply := (supply.nextName name).2 } := by
  rw [fit.eq_4 _ _ _ _ _ _ _ (congrArg Verdict.action verdict), verdict]

theorem fit_moveBody (verdict : judge limits room line = ⟨closes, .divideBody next⟩) :
    fit limits (some name) room supply (line :: rest) =
      (fit limits (some name) room (supply.nextName name).2 (rest.dropWhile staysInBody)).afterCall
        (fillerEnd closes ++ [callLine (supply.nextName name).1])
        ⟨(supply.nextName name).1, line :: rest.takeWhile staysInBody⟩ := by
  rw [fit.eq_5 _ _ _ _ _ _ _ (congrArg Verdict.action verdict), verdict]

theorem fit_markRest (verdict : judge limits room line = ⟨closes, .divideRest next⟩) :
    fit limits none room supply (line :: rest) =
      (fit limits none next supply.nextPlaceholder.2 rest).afterPlaceholder
        (fillerEnd closes ++ [placeholderLine supply.nextPlaceholder.1, line])
        supply.nextPlaceholder.1 := by
  rw [fit.eq_6 _ _ _ _ _ _ (congrArg Verdict.action verdict), verdict]

theorem fit_markBody (verdict : judge limits room line = ⟨closes, .divideBody next⟩) :
    fit limits none room supply (line :: rest) =
      (fit limits none next supply.nextPlaceholder.2 rest).afterPlaceholder
        (fillerEnd closes ++ [placeholderLine supply.nextPlaceholder.1, line])
        supply.nextPlaceholder.1 := by
  rw [fit.eq_7 _ _ _ _ _ _ (congrArg Verdict.action verdict), verdict]

/-- What each way to fit a line keeps holds of every fitted body. The lines are induced on as they are fitted, so
behind a body that is moved out they go on with the line that ends it. -/
theorem fit_induction (limits : Limits) (base : Option String) {motive : Supply → List Line → Fitted → Prop}
    (done : ∀ supply lines, motive supply [] { lines, supply })
    (keep : ∀ {supply line rest fitted} before, motive supply rest fitted →
      motive supply (line :: rest) (fitted.after before))
    (fill : ∀ {supply line rest fitted} before, motive supply rest fitted →
      motive supply (line :: rest) (fitted.afterFiller before))
    (moveRest : ∀ {room next supply line rest name} before,
      (judge limits room line).action = .divideRest next →
      motive supply (line :: rest) (Fitted.afterCall before ⟨(supply.nextName name).1, line :: rest⟩
        { supply := (supply.nextName name).2 }))
    (moveBody : ∀ {room next supply line rest name fitted} before,
      (judge limits room line).action = .divideBody next →
      motive (supply.nextName name).2 (rest.dropWhile staysInBody) fitted →
      motive supply (line :: rest)
        (fitted.afterCall before ⟨(supply.nextName name).1, line :: rest.takeWhile staysInBody⟩))
    (mark : ∀ {supply line rest fitted} before, motive supply.nextPlaceholder.2 rest fitted →
      motive supply (line :: rest) (fitted.afterPlaceholder before supply.nextPlaceholder.1))
    (room : Room) (supply : Supply) (lines : List Line) :
    motive supply lines (fit limits base room supply lines) := by
  induction room, supply, lines using fit.induct limits base with
  | case1 room supply => rw [fit]; exact done supply _
  | case2 room supply line rest _ next action ih =>
      rw [fit.eq_2 _ _ _ _ _ _ _ action]
      exact keep _ ih
  | case3 room supply line rest _ next action ih =>
      rw [fit.eq_3 _ _ _ _ _ _ _ action]
      exact fill _ ih
  | case4 room supply line rest _ next name named action =>
      subst named
      rw [fit.eq_4 _ _ _ _ _ _ _ action]
      exact moveRest _ action
  | case5 room supply line rest _ next name named action auxiliary behind nextName ih =>
      subst named
      rw [fit.eq_5 _ _ _ _ _ _ _ action]
      obtain ⟨rfl, rfl⟩ := Prod.mk.inj nextName
      exact moveBody _ action ih
  | case6 room supply line rest _ next anonymous action number behind nextNumber ih =>
      subst anonymous
      rw [fit.eq_6 _ _ _ _ _ _ action]
      obtain ⟨rfl, rfl⟩ := Prod.mk.inj nextNumber
      exact mark _ ih
  | case7 room supply line rest _ next anonymous action number behind nextNumber ih =>
      subst anonymous
      rw [fit.eq_7 _ _ _ _ _ _ action]
      obtain ⟨rfl, rfl⟩ := Prod.mk.inj nextNumber
      exact mark _ ih

/-- Closing a filler in front of a line is a step of its own. -/
theorem fit_endFiller {action : Action} (verdict : judge limits room line = ⟨true, action⟩) :
    fit limits base room supply (line :: rest) =
      (fit limits base { room with place := .outside } supply (line :: rest)).after
        [Line.closing] := by
  obtain ⟨place, opened⟩ := judge_endFiller verdict
  cases action with
  | keep next => rw [fit_keep verdict, fit_keep opened]; rfl
  | fill next => rw [fit_fill verdict, fit_fill opened]; rfl
  | divideRest next =>
      cases base with
      | none => rw [fit_markRest verdict, fit_markRest opened]; rfl
      | some name => rw [fit_moveRest verdict, fit_moveRest opened]; rfl
  | divideBody next =>
      obtain ⟨kind, -, inside, -⟩ := judge_divideBody opened
      cases inside

theorem nested_dropWhile {position : Position} (inside : position ≠ .outside)
    (nested : Nested position rest) :
    (∀ line ∈ rest.takeWhile staysInBody, line.tag.isPlain) ∧
      Nested position (rest.dropWhile staysInBody) := by
  induction rest with
  | nil => exact ⟨by simp, nested⟩
  | cons line rest ih =>
      obtain ⟨next, stepped, nested'⟩ := nested_cons.mp nested
      by_cases stays : staysInBody line
      · have plain : line.tag.isPlain := by
          unfold staysInBody at stays
          cases tag : line.tag <;> cases position <;>
            simp_all [Tag.isPlain, Tag.closesBody, Tag.opens, Position.step, Tag.closes]
        rw [step_plain plain] at stepped
        obtain rfl := Option.some.inj stepped
        rw [List.takeWhile_cons_of_pos stays, List.dropWhile_cons_of_pos stays]
        exact ⟨List.forall_mem_cons.mpr ⟨plain, (ih nested').1⟩, (ih nested').2⟩
      · rw [List.takeWhile_cons_of_neg stays, List.dropWhile_cons_of_neg stays]
        exact ⟨by simp, nested⟩

/-- A line in front of which no filler is closed takes one of the steps of a course, if what is left
behind it has one. -/
theorem course_cons {position : Position} (stands : room.StandsAt position)
    (headless : Headless (line :: rest)) (nested : Nested position (line :: rest))
    (opened : (judge limits room line).closesFiller = false)
    (ih : ∀ {after : Position} {next : Room} (supply : Supply) {lines : List Line},
      lines.length < (line :: rest).length → next.StandsAt after → Headless lines →
      Nested after lines →
      Course limits base after next supply lines (fit limits base next supply lines)) :
    Course limits base position room supply (line :: rest)
      (fit limits base room supply (line :: rest)) := by
  obtain ⟨header, headless'⟩ := headless_cons.mp headless
  obtain ⟨after, stepped, nested'⟩ := nested_cons.mp nested
  have shorter : rest.length < (line :: rest).length := Nat.lt_succ_self _
  cases verdict : judge limits room line with
  | mk closes action =>
      rw [verdict] at opened
      obtain rfl : closes = false := opened
      -- One step of a course for each action, and two where a body without a name is only marked.
      cases action with
      | keep next =>
          rw [fit_keep verdict]
          by_cases plain : line.tag.isPlain
          · have place := judge_plain plain verdict
            obtain rfl : position = after := Option.some.inj ((step_plain plain).symm.trans stepped)
            have stands' : next.StandsAt position := by rwa [Room.StandsAt, place]
            exact .plain plain verdict place stands (ih supply shorter stands' headless' nested')
          · obtain ⟨before, behind, stands'⟩ := judge_turn plain header stands stepped verdict
            exact .turn plain header stepped verdict before behind stands stands'
              (ih supply shorter stands' headless' nested')
      | fill next =>
          obtain ⟨kind, tag, place, filled⟩ := judge_fill verdict
          obtain rfl := stands.eq_outside (by rw [place]; exact nofun)
          obtain rfl : Position.outside = after := by
            rw [tag] at stepped
            exact Option.some.inj stepped
          have stands' : next.StandsAt .outside := by rw [filled]; simp [Room.StandsAt]
          rw [fit_fill verdict]
          exact .fill tag place verdict filled (ih supply shorter stands' headless' nested')
      | divideRest next =>
          obtain ⟨rfl, place, behind, stands'⟩ := judge_divideRest verdict stands stepped
          cases base with
          | none =>
              rw [fit_markRest verdict]
              exact .markRest rfl place behind stands' stepped verdict
                (ih _ shorter stands' headless' nested')
          | some name =>
              rw [fit_moveRest verdict]
              exact .moveRest rfl place nested verdict
      | divideBody next =>
          obtain ⟨kind, tag, place, divided⟩ := judge_divideBody verdict
          have plain : line.tag.isPlain := by rw [tag]; rfl
          have inside := stands.mp place
          obtain rfl : position = after := Option.some.inj ((step_plain plain).symm.trans stepped)
          cases base with
          | none =>
              have stands' : next.StandsAt position := by rw [divided]; exact stands
              rw [fit_markBody verdict]
              exact .markBody rfl place (by rw [divided]; exact place) inside plain verdict
                (ih _ shorter stands' headless' nested')
          | some name =>
              -- The lines up to the end of the body move; what ends it and all behind stay.
              obtain ⟨moved, left⟩ := nested_dropWhile inside nested'
              rw [fit_moveBody verdict]
              refine .moveBody rfl place inside (List.forall_mem_cons.mpr ⟨plain, moved⟩) verdict
                (ih _ ?_ stands ?_ left)
              · exact Nat.lt_succ_of_le (List.dropWhile_sublist _).length_le
              · exact fun line member => headless' line ((List.dropWhile_sublist _).subset member)

/-- Every fitted well nested body has a course. -/
theorem course_fit (limits : Limits) (base : Option String) {position : Position} {room : Room}
    (supply : Supply) {lines : List Line} (stands : room.StandsAt position)
    (headless : Headless lines) (nested : Nested position lines) :
    Course limits base position room supply lines (fit limits base room supply lines) := by
  cases lines with
  | nil =>
      obtain rfl : position = .outside := Option.some.inj nested
      rw [fit]
      cases place : room.place with
      | outside => exact .done place
      | conditional => exact absurd rfl (stands.mp place)
      | filler => exact .endFiller place (.done rfl)
  | cons line rest =>
      have ih {after : Position} {next : Room} (supply : Supply) {lines : List Line}
          (_ : lines.length < (line :: rest).length) (stands : next.StandsAt after)
          (headless : Headless lines) (nested : Nested after lines) :=
        course_fit limits base supply stands headless nested
      cases verdict : judge limits room line with
      | mk closes action =>
          cases closes with
          | false => exact course_cons stands headless nested (by rw [verdict]) ih
          | true =>
              obtain ⟨place, opened⟩ := judge_endFiller verdict
              obtain rfl := stands.eq_outside (by rw [place]; decide)
              rw [fit_endFiller verdict]
              -- The same line is judged again outside the filler, where none is left to close.
              exact .endFiller place
                (course_cons (by simp [Room.StandsAt]) headless nested (by rw [opened]) ih)
termination_by lines.length

/-- The course of a whole body, from its start on. -/
theorem course_start (limits : Limits) (base : Option String) (supply : Supply)
    {lines : List Line} (headless : Headless lines) (nested : Nested .outside lines) :
    Course limits base .outside {} supply lines (fit limits base {} supply lines) :=
  course_fit limits base supply (by simp [Room.StandsAt]) headless nested

end Fit

/-! ## The written lines -/

/-- The lines that fitting adds to a body. -/
inductive Inserted : Line → Prop
  | filler : Inserted fillerLine
  | closing : Inserted Line.closing
  | call (name : String) : Inserted (callLine name)
  | placeholder (number : Nat) : Inserted (placeholderLine number)

/-- What holds of the lines of a body and of all that fitting adds holds of the written lines. -/
theorem Course.forall_lines {limits : Limits} {base : Option String} {position : Position}
    {room : Room} {supply : Supply} {lines : List Line} {fitted : Fitted} {holds : Line → Prop}
    (course : Course limits base position room supply lines fitted)
    (inserted : ∀ line, Inserted line → holds line) (source : ∀ line ∈ lines, holds line) :
    ∀ line ∈ fitted.lines, holds line := by
  induction course with
  | done _ => exact source
  | endFiller _ _ ih => exact List.forall_mem_cons.mpr ⟨inserted _ .closing, ih source⟩
  | plain _ _ _ _ _ ih | turn _ _ _ _ _ _ _ _ _ ih =>
      obtain ⟨first, rest⟩ := List.forall_mem_cons.mp source
      exact List.forall_mem_cons.mpr ⟨first, ih rest⟩
  | fill _ _ _ _ _ ih =>
      obtain ⟨first, rest⟩ := List.forall_mem_cons.mp source
      exact List.forall_mem_cons.mpr
        ⟨inserted _ .filler, List.forall_mem_cons.mpr ⟨first, ih rest⟩⟩
  | moveRest _ _ _ _ => exact List.forall_mem_cons.mpr ⟨inserted _ (.call _), nofun⟩
  | moveBody _ _ _ _ _ _ ih =>
      refine List.forall_mem_cons.mpr ⟨inserted _ (.call _), ih fun line member => ?_⟩
      exact (List.forall_mem_cons.mp source).2 line ((List.dropWhile_sublist _).subset member)
  | markRest _ _ _ _ _ _ _ ih | markBody _ _ _ _ _ _ _ ih =>
      obtain ⟨first, rest⟩ := List.forall_mem_cons.mp source
      exact List.forall_mem_cons.mpr
        ⟨inserted _ (.placeholder _), List.forall_mem_cons.mpr ⟨first, ih rest⟩⟩

/-- No header is written into a body. -/
theorem Course.headless {limits : Limits} {base : Option String} {position : Position} {room : Room}
    {supply : Supply} {lines : List Line} {fitted : Fitted}
    (course : Course limits base position room supply lines fitted) (headless : Headless lines) :
    Headless fitted.lines := by
  refine course.forall_lines ?_ headless
  intro line inserted
  cases inserted <;> exact nofun

/-- The position of a reader of the written lines, to whom a filler is a conditional. -/
def Room.written (room : Room) (position : Position) : Position :=
  if room.place = .filler then .firstBody else position

/-- What is written is well nested. -/
theorem Course.nested {limits : Limits} {base : Option String} {position : Position} {room : Room}
    {supply : Supply} {lines : List Line} {fitted : Fitted}
    (course : Course limits base position room supply lines fitted) :
    Nested (room.written position) fitted.lines := by
  have outside {room : Room} {position : Position} (place : room.place ≠ .filler) :
      room.written position = position := if_neg place
  have inFiller {room : Room} {position : Position} (place : room.place = .filler) :
      room.written position = .firstBody := if_pos place
  induction course with
  | done place => rw [outside (by rw [place]; exact nofun)]; rfl
  | endFiller place _ ih =>
      rw [inFiller place]
      exact nested_cons.mpr ⟨.outside, rfl, ih⟩
  | plain plain _ place _ _ ih =>
      rw [Room.written, place, ← Room.written] at ih
      exact nested_cons.mpr ⟨_, step_plain plain, ih⟩
  | turn _ _ stepped _ before behind _ _ _ ih =>
      rw [outside before]
      rw [outside behind] at ih
      exact nested_cons.mpr ⟨_, stepped, ih⟩
  | fill tag place _ filled _ ih =>
      rw [outside (by rw [place]; exact nofun)]
      rw [inFiller (by rw [filled])] at ih
      refine nested_cons.mpr ⟨.firstBody, rfl, nested_cons.mpr ⟨.firstBody, ?_, ih⟩⟩
      exact step_plain (by rw [tag]; rfl)
  | moveRest _ place _ _ =>
      rw [outside (by rw [place]; exact nofun)]
      rfl
  | moveBody _ _ _ _ _ _ ih => exact nested_cons.mpr ⟨_, step_plain rfl, ih⟩
  | markRest _ place behind _ stepped _ _ ih =>
      rw [outside (by rw [place]; exact nofun)]
      rw [outside behind] at ih
      exact nested_cons.mpr ⟨_, step_plain rfl, nested_cons.mpr ⟨_, stepped, ih⟩⟩
  | markBody _ place behind _ plain _ _ ih =>
      rw [outside (by rw [place]; exact nofun)]
      rw [outside (by rw [behind]; exact nofun)] at ih
      exact nested_cons.mpr ⟨_, step_plain rfl, nested_cons.mpr ⟨_, step_plain plain, ih⟩⟩

end StatScript.Fitting
