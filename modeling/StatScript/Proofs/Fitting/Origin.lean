import StatScript.Proofs.Fitting.Grammar
import StatScript.Proofs.Fitting.Health

/-!
# Where a reported line stands

The structure of a program is checked once its health lines are fused, and errors count the lines of the
fused program. The program as it was given has more lines: each full heal that was taken up is one.

Results:
1. `exists_origin`: every line of a fused program comes from a line of the program.
2. `Origin.length_eq`: its index falls behind by one for each full heal taken up before it.
3. `fitProgram_error_origin`: so it is with the line that an error is about, whose text is reported with the
   last word that it was given. `fitProgram_error_misses`: the index may then be that of another line.
-/

namespace StatScript

namespace StructureError

/-- The index of the line that the error is about. -/
def index? : StructureError → Option Nat
  | nestedConditional index _ | headerInsideConditional index _ | unmatchedClose index _
  | unclosedConditional index _ | elseWithoutIf index => some index
  | nothingToFuse _ => none

/-- The line has the text that is reported, or else the tag that the error is for. -/
def Describes (line : Line) : StructureError → Prop
  | nestedConditional _ text | headerInsideConditional _ text | unmatchedClose _ text
  | unclosedConditional _ text => line.text = text
  | elseWithoutIf _ => line.tag = .elseOpen
  | nothingToFuse _ => False

/-- Lines with this tag can be what the error is about. -/
def Concerns (tag : Tag) : StructureError → Prop
  | nestedConditional _ _ | unclosedConditional _ _ => tag.opens
  | headerInsideConditional _ _ => tag = .header
  | unmatchedClose _ _ => tag.closes
  | elseWithoutIf _ => tag = .elseOpen
  | nothingToFuse _ => False

end StructureError

namespace Fitting

/-! ## Lines of a fused program -/

/-- The line as it stands in a fused program. -/
inductive Becomes (line : Line) : Line → Prop
  | same : Flagged line → Becomes line line
  | flagged {amount : String} (heal : Bool) :
      unflaggedAmount? line.text = some amount → Becomes line (flagged line amount heal)

theorem Becomes.tag_eq {line shown : Line} (becomes : Becomes line shown) : shown.tag = line.tag := by
  cases becomes with
  | same => rfl
  | flagged => rfl

/-- A line keeps its text iff it needs no last word. -/
theorem Becomes.text_eq_iff {line shown : Line} (becomes : Becomes line shown) :
    line.text = shown.text ↔ Flagged line := by
  cases becomes with
  | same flagged => exact iff_of_true rfl flagged
  | flagged heal sets =>
      have given := unflaggedAmount?_flagged heal sets
      refine iff_of_false (fun same => ?_) fun flagged => ?_
      · rw [← same, sets] at given
        cases given
      · rw [Flagged, sets] at flagged
        cases flagged

/-- Where a line of a fused program comes from: the lines before it and the line itself, in the program. -/
structure Origin (lines : List Line) (index : Nat) (shown : Line) (before : List Line) (line : Line) :
    Prop where
  given : ∃ behind, lines = before ++ line :: behind
  fused : ∃ behind, fuseHealth lines = fuseHealth before ++ shown :: behind
  index_eq : (fuseHealth before).length = index
  becomes : Becomes line shown

section Fused

variable {line next shown : Line} {rest before lines : List Line} {amount : String} {index : Nat}

theorem fuseHealth_keep (flagged : Flagged line) (rest : List Line) :
    fuseHealth (line :: rest) = line :: fuseHealth rest := by
  cases rest with
  | nil => simp only [fuseHealth, show unflaggedAmount? line.text = none from flagged]
  | cons next rest => simp only [fuseHealth, show unflaggedAmount? line.text = none from flagged]

theorem fuseHealth_heal (sets : unflaggedAmount? line.text = some amount) (heal : heals next)
    (rest : List Line) :
    fuseHealth (line :: next :: rest) = flagged line amount true :: fuseHealth rest := by
  simp only [fuseHealth, sets, heal, if_true]

theorem fuseHealth_stay (sets : unflaggedAmount? line.text = some amount)
    (stay : ∀ next ∈ rest.head?, heals next = false) :
    fuseHealth (line :: rest) = flagged line amount false :: fuseHealth rest := by
  cases rest with
  | nil => simp only [fuseHealth, sets]
  | cons next rest => simp [fuseHealth, sets, stay next rfl]

/-- The first line of a fused program comes from the first line. -/
theorem Origin.first (becomes : Becomes line shown) {behind : List Line}
    (fused : fuseHealth (line :: rest) = shown :: behind) : Origin (line :: rest) 0 shown [] line :=
  ⟨⟨rest, rfl⟩, ⟨behind, fused⟩, rfl, becomes⟩

/-- Lines that are fused into one, ahead of a program, move its lines back by one. -/
theorem Origin.ahead (origin : Origin lines index shown before line) (ahead : List Line) {fused : Line}
    (whole : fuseHealth (ahead ++ lines) = fused :: fuseHealth lines)
    (part : fuseHealth (ahead ++ before) = fused :: fuseHealth before) :
    Origin (ahead ++ lines) (index + 1) shown (ahead ++ before) line := by
  obtain ⟨⟨behind, given⟩, ⟨behind', image⟩, rfl, becomes⟩ := origin
  refine ⟨⟨behind, ?_⟩, ⟨behind', ?_⟩, ?_, becomes⟩
  · rw [given, List.append_assoc]
  · rw [whole, part, image, List.cons_append]
  · rw [part, List.length_cons]

/-- Every line of a fused program comes from a line of the program. -/
theorem exists_origin (shown_eq : (fuseHealth lines)[index]? = some shown) :
    ∃ before line, Origin lines index shown before line := by
  fun_induction fuseHealth lines generalizing index with
  | case1 => cases shown_eq
  | case2 first plain =>
      cases index with
      | zero =>
          cases shown_eq
          exact ⟨[], _, .first (.same plain) (fuseHealth_keep plain [])⟩
      | succ index => cases shown_eq
  | case3 first amount sets =>
      cases index with
      | zero =>
          cases shown_eq
          exact ⟨[], first, .first (.flagged false sets) (fuseHealth_stay sets fun _ none => by cases none)⟩
      | succ index => cases shown_eq
  | case4 first next rest plain ih =>
      cases index with
      | zero =>
          cases shown_eq
          exact ⟨[], _, .first (.same plain) (fuseHealth_keep plain _)⟩
      | succ index =>
          obtain ⟨before, line, origin⟩ := ih shown_eq
          exact ⟨first :: before, line,
            origin.ahead [first] (fuseHealth_keep plain (next :: rest)) (fuseHealth_keep plain before)⟩
  | case5 first next rest amount sets heal ih =>
      cases index with
      | zero =>
          cases shown_eq
          exact ⟨[], first, .first (.flagged true sets) (fuseHealth_heal sets heal rest)⟩
      | succ index =>
          obtain ⟨before, line, origin⟩ := ih shown_eq
          exact ⟨first :: next :: before, line,
            origin.ahead [first, next] (fuseHealth_heal sets heal rest) (fuseHealth_heal sets heal before)⟩
  | case6 first next rest amount sets stay ih =>
      have stay' : ∀ other ∈ (next :: rest).head?, heals other = false := by
        rintro other ⟨⟩
        exact Bool.eq_false_iff.mpr stay
      cases index with
      | zero =>
          cases shown_eq
          exact ⟨[], first, .first (.flagged false sets) (fuseHealth_stay sets stay')⟩
      | succ index =>
          obtain ⟨before, line, origin⟩ := ih shown_eq
          -- What stands before the line begins with the line that does not heal, or is empty.
          have part : ∀ other ∈ before.head?, heals other = false := by
            obtain ⟨behind, given⟩ := origin.given
            intro other head
            refine stay' other ?_
            rw [given, List.head?_append, Option.mem_def.mp head]
            rfl
          exact ⟨first :: before, line,
            origin.ahead [first] (fuseHealth_stay sets stay') (fuseHealth_stay sets part)⟩

end Fused

/-! ## Full heals -/

/-- The number of full heals that are taken up, each into the line before it. -/
def healings (lines : List Line) : Nat :=
  (lines.zip lines.tail).countP fun (line, next) => (unflaggedAmount? line.text).isSome && heals next

/-- A line that heals in full does not set the maximal health. -/
theorem flagged_of_heals {line : Line} (heal : heals line) : Flagged line := by
  have head : (Text.trim line.text).toList.head? = some 'f' := by
    rw [of_decide_eq_true heal]
    rfl
  obtain ⟨word, further, words⟩ := Text.words_of_trim head (by decide)
  exact unflaggedAmount?_eq_none words (by decide)

theorem healings_cons (line next : Line) (rest : List Line) :
    healings (line :: next :: rest) =
      healings (next :: rest) + if (unflaggedAmount? line.text).isSome && heals next then 1 else 0 := by
  rw [healings, List.tail_cons, List.zip_cons_cons, List.countP_cons]
  rfl

theorem healings_flagged {line : Line} (flagged : Flagged line) (rest : List Line) :
    healings (line :: rest) = healings rest := by
  cases rest with
  | nil => rfl
  | cons next rest => simp [healings_cons, show unflaggedAmount? line.text = none from flagged]

/-- Fusing takes out the full heals that are taken up. -/
theorem length_fuseHealth (lines : List Line) :
    (fuseHealth lines).length + healings lines = lines.length := by
  fun_induction fuseHealth lines with
  | case1 => rfl
  | case2 => rfl
  | case3 => rfl
  | case4 first next rest plain ih =>
      rw [List.length_cons, List.length_cons, healings_flagged plain, ← ih, Nat.add_right_comm]
  | case5 first next rest amount sets heal ih =>
      rw [List.length_cons, List.length_cons, List.length_cons, healings_cons,
        healings_flagged (flagged_of_heals heal), if_pos (by simp [sets, heal]), ← ih]
      omega
  | case6 first next rest amount sets stay ih =>
      rw [List.length_cons, List.length_cons, healings_cons, if_neg (by simp [stay]), ← ih]
      omega

/-- Of the lines before it, a line of a fused program has lost the full heals that were taken up. -/
theorem Origin.length_eq {lines before : List Line} {index : Nat} {shown line : Line}
    (origin : Origin lines index shown before line) : index + healings before = before.length := by
  rw [← origin.index_eq, length_fuseHealth]

/-! ## Reported lines -/

section Reported

variable {lines before : List Line} {line shown : Line} {index : Nat} {error : StructureError}

theorem misplaced?_describes (named : misplaced? index line = some error) :
    error.index? = some index ∧ error.Describes line ∧ error.Concerns line.tag := by
  unfold misplaced? at named
  split at named
  all_goals cases named
  all_goals
    simp [StructureError.index?, StructureError.Describes, StructureError.Concerns, Tag.opens, Tag.closes, *]

/-- What is reported of lines that are no program is the index of one of them, and its text or its tag. -/
theorem Broken.describes (broken : Broken lines error) :
    ∃ index line, error.index? = some index ∧ lines[index]? = some line ∧
      error.Describes line ∧ error.Concerns line.tag := by
  cases broken with
  | @misplaced before behind line error split _ _ named =>
      obtain ⟨located, described⟩ := misplaced?_describes named
      rw [split]
      exact ⟨before.length, line, located, by simp, described⟩
  | @unclosed _ line _ _ opening =>
      obtain @⟨before, behind, _, opens, -⟩ := opening
      exact ⟨before.length, line, rfl, by simp, rfl, opens⟩

/-- The line that was given fits what is reported iff it needed no last word, or its text is not reported. -/
theorem Becomes.describes_iff (becomes : Becomes line shown) (located : error.index? = some index)
    (describes : error.Describes shown) :
    error.Describes line ↔ Flagged line ∨ error = .elseWithoutIf index := by
  cases error with
  | nestedConditional _ _ | headerInsideConditional _ _ | unmatchedClose _ _ | unclosedConditional _ _ =>
      simp only [StructureError.Describes] at describes ⊢
      rw [← describes, becomes.text_eq_iff]
      simp
  | elseWithoutIf _ =>
      rw [StructureError.Describes, becomes.tag_eq] at describes
      cases located
      exact iff_of_true describes (.inr rfl)
  | nothingToFuse _ => cases describes

/-- The line that an error is about is a line of the program. Its index is reported too low by the number of
full heals taken up before it, so it is right iff there are none, and its text is right iff the line needed no
last word. -/
theorem fitProgram_error_origin {limits : Limits} (failed : fitProgram limits lines = .error error) :
    ∃ index shown before line, error.index? = some index ∧ Origin lines index shown before line ∧
      error.Describes shown ∧ error.Concerns line.tag ∧
      index + healings before = before.length ∧
      (healings before = 0 → lines[index]? = some line) ∧
      (error.Describes line ↔ Flagged line ∨ error = .elseWithoutIf index) := by
  obtain ⟨index, shown, located, found, describes, concerns⟩ :=
    (check_eq_error_iff.mp (fitProgram_eq_error.mp failed)).describes
  obtain ⟨before, line, origin⟩ := exists_origin found
  have length := origin.length_eq
  rw [origin.becomes.tag_eq] at concerns
  refine ⟨index, shown, before, line, located, origin, describes, concerns, length, fun none => ?_,
    origin.becomes.describes_iff located describes⟩
  obtain ⟨behind, given⟩ := origin.given
  rw [none, Nat.add_zero] at length
  rw [given, length]
  simp

end Reported

/-- A program whose only heal is taken up, with an end of a conditional that was never begun. -/
def healed : List Line :=
  [{ text := "maxHealth 20", tag := .change .misc }, { text := "fullHeal", tag := .misc }, Line.closing]

theorem fitProgram_healed : fitProgram {} healed = .error (.unmatchedClose 1 Line.closing.text) :=
  fitProgram_eq_error.mpr rfl

theorem fitProgram_error_origin_healed :
    ∃ shown before line, Origin healed 1 shown before line ∧ shown.text = Line.closing.text ∧
      1 + healings before = before.length := by
  obtain ⟨index, shown, before, line, located, origin, describes, -, length, -⟩ :=
    fitProgram_error_origin fitProgram_healed
  cases located
  exact ⟨shown, before, line, origin, describes, length⟩

/-- The index that is reported may be that of another line, here of the full heal that was taken up. -/
theorem fitProgram_error_misses :
    ¬ ∀ (limits : Limits) (lines : List Line) (error : StructureError) (index : Nat),
      fitProgram limits lines = .error error → error.index? = some index →
        ∃ line, lines[index]? = some line ∧ error.Describes line := by
  intro points
  obtain ⟨line, found, describes⟩ := points {} healed _ 1 fitProgram_healed rfl
  cases found
  have same : "fullHeal" = Line.closing.text := describes
  exact absurd same (by decide)

end Fitting

end StatScript
