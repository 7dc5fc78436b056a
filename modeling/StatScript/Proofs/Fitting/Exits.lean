import StatScript.Proofs.Fitting.Depth

/-!
# Exits behind changes

An exit in the body of a conditional is moved out with the changes before it where the body is full. Here
it is said of a program which exits stay: those with no more changes before them, in the same body, than
fit into one.

Results:
1. `ExitsFit`: no exit stands where the body of a conditional is full.
2. `Room.Counts.keep`: while lines are kept, the room counts no more changes than the body has.
3. `ExitsFit.divide`: so the rest of a body that is divided off has no exit.
-/

namespace StatScript

theorem ChangeKind.mem_all (kind : ChangeKind) : kind ∈ ChangeKind.all := by
  cases kind <;> decide

namespace Fitting

/-! ## Exits in bodies -/

/-- The changes so far in the body of a conditional, behind a line with a given tag. There are none to
count outside. -/
def bodyTally (body : Option Tally) : Tag → Option Tally
  | .openAll | .openAny | .elseOpen => some {}
  | .close | .elseClose => none
  | .change kind => body.map fun tally => tally.bump kind
  | _ => body

/-- Each exit in the body of a conditional stands behind no more changes of a kind than fit into one
body. -/
def ExitsFit (limits : Limits) (body : Option Tally) : List Line → Prop
  | [] => True
  | line :: rest =>
      (line.tag = .exit →
        ∀ tally ∈ body, ∀ kind ∈ ChangeKind.all, tally.get kind ≤ limits.changes) ∧
      ExitsFit limits (bodyTally body line.tag) rest

instance decidableExitsFit (limits : Limits) (body : Option Tally) :
    (lines : List Line) → Decidable (ExitsFit limits body lines)
  | [] => inferInstanceAs (Decidable True)
  | line :: rest =>
      have := decidableExitsFit limits (bodyTally body line.tag) rest
      inferInstanceAs (Decidable (_ ∧ _))

theorem bodyTally_plain {tag : Tag} (plain : tag.isPlain) (tally : Tally) :
    ∃ tally', bodyTally (some tally) tag = some tally' ∧
      ∀ kind, tally.get kind ≤ tally'.get kind := by
  cases tag with
  | change kind =>
      exact ⟨tally.bump kind, rfl, fun other => by simp⟩
  | openAll | openAny | close | elseOpen | elseClose | header => cases plain
  | call | exit | cancel | misc | comment => exact ⟨tally, rfl, fun _ => Nat.le_refl _⟩

/-- Behind too many changes there is no exit up to the end of the body. -/
theorem ExitsFit.append {limits : Limits} {first second : List Line} {tally : Tally}
    (exits : ExitsFit limits (some tally) (first ++ second))
    (plain : ∀ line ∈ first, line.tag.isPlain) :
    ∃ tally', (∀ kind, tally.get kind ≤ tally'.get kind) ∧ ExitsFit limits (some tally') second ∧
      ∀ kind, limits.changes < tally.get kind → ∀ line ∈ first, line.tag ≠ .exit := by
  induction first generalizing tally with
  | nil => exact ⟨tally, fun _ => Nat.le_refl _, exits, nofun⟩
  | cons line first ih =>
      obtain ⟨head, others⟩ := List.forall_mem_cons.mp plain
      obtain ⟨fits, further⟩ := exits
      obtain ⟨next, counted, le⟩ := bodyTally_plain head tally
      rw [counted] at further
      obtain ⟨tally', le', exits', free⟩ := ih further others
      refine ⟨tally', fun kind => Nat.le_trans (le kind) (le' kind), exits', fun kind full => ?_⟩
      refine List.forall_mem_cons.mpr ⟨fun tag => ?_, free kind (Nat.lt_of_lt_of_le full (le kind))⟩
      exact Nat.not_lt_of_le (fits tag tally rfl kind (ChangeKind.mem_all kind)) full

/-- Exits outside conditionals always fit. -/
theorem exitsFit_plain {limits : Limits} {lines : List Line}
    (plain : ∀ line ∈ lines, line.tag.isPlain) : ExitsFit limits none lines := by
  induction lines with
  | nil => trivial
  | cons line rest ih =>
      obtain ⟨head, others⟩ := List.forall_mem_cons.mp plain
      have outside : bodyTally none line.tag = none := by
        cases tag : line.tag with
        | openAll | openAny | close | elseOpen | elseClose | header =>
            rw [tag] at head
            cases head
        | change kind | call | exit | cancel | misc | comment => rfl
      refine ⟨nofun, ?_⟩
      rw [outside]
      exact ih others

theorem exitsFit_bare {limits : Limits} {body : Option Tally} {lines : List Line} :
    ExitsFit limits body (lines.map Line.bare) ↔ ExitsFit limits body lines := by
  induction lines generalizing body with
  | nil => exact Iff.rfl
  | cons line rest ih => exact and_congr Iff.rfl ih

/-! ## Counts of a course -/

/-- In a conditional of the program no more changes are counted than its body has so far. -/
def Room.Counts (room : Room) (body : Option Tally) : Prop :=
  room.place = .conditional →
    ∃ tally, body = some tally ∧ ∀ kind, room.inside.get kind ≤ tally.get kind

theorem Room.counts_start (body : Option Tally) : Room.Counts {} body := by
  intro place
  cases place

theorem Room.Counts.keep {limits : Limits} {room next : Room} {body : Option Tally} {line : Line}
    (counts : room.Counts body) (verdict : judge limits room line = ⟨false, .keep next⟩) :
    next.Counts (bodyTally body line.tag) := by
  have empty : ∃ tally : Tally, some {} = some tally ∧ ∀ kind, Tally.zero.get kind ≤ tally.get kind :=
    ⟨{}, rfl, fun _ => Nat.le_refl _⟩
  intro place
  unfold judge at verdict
  split at verdict
  case h_1 tag | h_2 tag =>
      rw [tag]
      unfold openAction at verdict
      split at verdict <;> cases (Verdict.mk.inj verdict).2
      exact empty
  case h_3 tag =>
      rw [tag]
      cases verdict
      exact empty
  case h_4 tag | h_5 tag =>
      cases verdict
      cases place
  case h_6 kind tag =>
      rw [tag]
      have before : room.place = .conditional := (changeVerdict_eq_keep verdict).symm.trans place
      obtain ⟨tally, rfl, le⟩ := counts before
      simp only [changeVerdict, before, insideAction] at verdict
      split at verdict <;> cases verdict
      refine ⟨tally.bump kind, rfl, fun other => ?_⟩
      simpa using le other
  case h_7 tag =>
      rw [tag]
      split at verdict
      · have before : room.place = .conditional :=
          (placeholderVerdict_eq_keep verdict).symm.trans place
        obtain ⟨tally, rfl, -⟩ := counts before
        simp only [placeholderVerdict, before] at verdict
        cases verdict
        exact ⟨tally, rfl, fun kind => by simp⟩
      · cases verdict
        exact counts place
  case h_8 other =>
      cases verdict
      have same : bodyTally body line.tag = body := by
        cases tag : line.tag <;> simp_all [bodyTally]
      rw [same]
      exact counts place

/-- The rest of a body is divided off only if there is no room for another change. -/
theorem full_of_divideBody {limits : Limits} {room next : Room} {line : Line} {kind : ChangeKind}
    (tag : line.tag = .change kind) (place : room.place = .conditional)
    (verdict : judge limits room line = ⟨false, .divideBody next⟩) :
    limits.changes ≤ room.inside.get kind := by
  rw [judge_change tag] at verdict
  simp only [changeVerdict, place, insideAction] at verdict
  split at verdict
  · cases verdict
  · next full => exact Nat.le_of_not_lt full

/-- The rest of a body that is divided off has no exit, and behind it the count goes on. -/
theorem ExitsFit.divide {limits : Limits} {room next : Room} {body : Option Tally} {line : Line}
    {rest : List Line} (exits : ExitsFit limits body (line :: rest)) (counts : room.Counts body)
    (place : room.place = .conditional)
    (plain : ∀ moved ∈ line :: rest.takeWhile staysInBody, moved.tag.isPlain)
    (verdict : judge limits room line = ⟨false, .divideBody next⟩) :
    (∀ moved ∈ line :: rest.takeWhile staysInBody, moved.tag ≠ .exit) ∧
      ∃ body', ExitsFit limits body' (rest.dropWhile staysInBody) ∧ room.Counts body' := by
  obtain ⟨kind, tag, -, -⟩ := judge_divideBody verdict
  obtain ⟨tally, rfl, le⟩ := counts place
  have further : ExitsFit limits (some (tally.bump kind)) rest := by
    have behind := exits.2
    rw [tag] at behind
    exact behind
  rw [← List.takeWhile_append_dropWhile (l := rest)] at further
  obtain ⟨tally', le', exits', free⟩ := further.append (List.forall_mem_cons.mp plain).2
  refine ⟨List.forall_mem_cons.mpr ⟨by rw [tag]; exact nofun, free kind ?_⟩, some tally', exits',
    fun _ => ⟨tally', rfl, fun other => ?_⟩⟩
  · rw [Tally.get_bump, if_pos rfl]
    exact Nat.lt_succ_of_le (Nat.le_trans (full_of_divideBody tag place verdict) (le kind))
  · have bumped := le' other
    rw [Tally.get_bump] at bumped
    exact Nat.le_trans (le other) (Nat.le_of_add_right_le bumped)

/-- Fewer exits stand in a conditional if the lines start outside. -/
theorem ExitsFit.outside {limits : Limits} {body : Option Tally} {lines : List Line}
    (exits : ExitsFit limits body lines) : ExitsFit limits none lines := by
  induction lines generalizing body with
  | nil => trivial
  | cons line rest ih =>
      refine ⟨nofun, ?_⟩
      have further := exits.2
      cases tag : line.tag <;> rw [tag] at further <;> first | exact further | exact ih further

end Fitting

end StatScript
