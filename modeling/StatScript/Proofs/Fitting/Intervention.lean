import StatScript.Proofs.Fitting.Capacity
import StatScript.Proofs.Fitting.Execution
import StatScript.Proofs.Fitting.Repetition

/-!
# When fitting intervenes

The counts that fitting keeps are those of the blocks and pieces. So fitting adds nothing to a program
that fits, and what it adds nothing to fits.

Results:
1. `Fits.settled`: well nested lines that fit are settled.
2. `Course.settled_of_untouched`: so are lines to which fitting adds nothing.
3. `fitProgram_untouched_iff`: fitting adds nothing iff the program fits, and then only sets depths.
-/

namespace StatScript.Fitting

/-! ## Counting between cuts -/

section Bounded

variable {α : Type} {cuts counts : α → Bool} {limit used : Nat} {a : α} {rest : List α}

theorem Bounded.le {l : List α} (bounded : Bounded cuts counts limit used l) : used ≤ limit := by
  obtain ⟨block, -, -, first, -⟩ := bounded.splitOnP
  omega

theorem Bounded.tail {next : Nat} (bounded : Bounded cuts counts limit used (a :: rest))
    (counted : next = if cuts a then 0 else used + if counts a then 1 else 0) :
    Bounded cuts counts limit next rest := by
  unfold Bounded at bounded
  rw [counted]
  split at bounded
  · next cut =>
      rw [if_pos cut]
      exact bounded.2
  · next cut =>
      rw [if_neg cut]
      exact bounded

/-- An element that is counted has room. -/
theorem Bounded.lt (bounded : Bounded cuts counts limit used (a :: rest)) (cut : cuts a = false)
    (counted : counts a) : used < limit := by
  have behind := bounded.tail rfl
  rw [cut, counted] at behind
  exact behind.le

/-- Nothing exceeds the limit between two cuts if nothing does in any block. -/
theorem bounded_of_splitOnP {l block : List α} {further : List (List α)}
    (blocks : l.splitOnP cuts = block :: further) (first : used + block.countP counts ≤ limit)
    (others : ∀ other ∈ further, other.countP counts ≤ limit) :
    Bounded cuts counts limit used l := by
  induction l generalizing used block further with
  | nil =>
      obtain ⟨rfl, rfl⟩ := List.cons.inj blocks
      exact first
  | cons a rest ih =>
      obtain ⟨head, tail, same⟩ := List.exists_cons_of_ne_nil (List.splitOnP_ne_nil cuts rest)
      rw [List.splitOnP_cons_eq_if_modifyHead, same] at blocks
      refine bounded_cons (by omega) rfl ?_
      by_cases cut : cuts a
      · rw [if_pos cut] at blocks
        obtain ⟨rfl, rfl⟩ := List.cons.inj blocks
        obtain ⟨next, others⟩ := List.forall_mem_cons.mp others
        rw [if_pos cut]
        exact ih same (by omega) others
      · rw [if_neg cut] at blocks
        obtain ⟨rfl, rfl⟩ := List.cons.inj blocks
        rw [List.countP_cons] at first
        rw [if_neg cut]
        exact ih same (by omega) others

theorem bounded_of_blocks {l : List α}
    (blocks : ∀ block ∈ l.splitOnP cuts, block.countP counts ≤ limit) :
    Bounded cuts counts limit 0 l := by
  obtain ⟨block, further, same⟩ := List.exists_cons_of_ne_nil (List.splitOnP_ne_nil cuts l)
  rw [same] at blocks
  obtain ⟨first, others⟩ := List.forall_mem_cons.mp blocks
  exact bounded_of_splitOnP same (by omega) others

end Bounded

/-! ## Lines that fit -/

instance {p : ChangeKind → Prop} [DecidablePred p] : Decidable (∀ kind, p kind) :=
  decidable_of_iff (∀ kind ∈ ChangeKind.all, p kind)
    ⟨fun all kind => all kind (by cases kind <;> decide), fun all kind _ => all kind⟩

instance (limits : Limits) (lines : List Line) : Decidable (Fits limits lines) :=
  decidable_of_iff (_ ∧ _ ∧ _) ⟨fun ⟨conditionals, outside, inside⟩ => ⟨conditionals, outside, inside⟩,
    fun ⟨conditionals, outside, inside⟩ => ⟨conditionals, outside, inside⟩⟩

section Fits

variable {limits : Limits} {position after : Position} {room : Room} {line : Line}
  {lines rest : List Line}

/-- What is left of a container keeps to the limits, with some room taken already. -/
structure Room.Holds (limits : Limits) (room : Room) (lines : List Line) : Prop where
  conditionals : Bounded dividesBlock opensConditional limits.conditionals room.openings
    (placed room.isInside lines)
  outside : ∀ kind, Bounded dividesBlock (changesOutside kind) limits.changes
    (room.outside.get kind) (placed room.isInside lines)
  inside : room.place = .conditional → ∀ kind, Bounded isPlaceholder (changes kind) limits.changes
    (room.inside.get kind) (lines.takeWhile staysInBody)
  bodies : ∀ body ∈ bodies lines, ∀ piece ∈ pieces body, ∀ kind,
    piece.countP (changes kind) ≤ limits.changes

theorem Room.Holds.kept_change {kind : ChangeKind} (holds : room.Holds limits (line :: rest))
    (tag : line.tag = .change kind) (place : room.place ≠ .filler) :
    ∃ next, Kept limits room line next := by
  have unmarked : isPlaceholder line = false := not_isPlaceholder (by rw [tag]; exact nofun)
  cases standing : room.place with
  | outside =>
      refine ⟨_, .changeOutside tag standing ((holds.outside kind).lt ?_ ?_)⟩
      · simp [dividesBlock, unmarked]
      · simp [changesOutside, tag, Room.isInside, standing]
  | conditional =>
      have stays : staysInBody line := by simp [staysInBody, tag, Tag.closesBody]
      have body := holds.inside standing kind
      rw [List.takeWhile_cons_of_pos stays] at body
      refine ⟨_, .changeInside tag standing (body.lt unmarked ?_)⟩
      simp [changes, tag]
  | filler => exact absurd standing place

theorem Room.Holds.kept_opens (holds : room.Holds limits (line :: rest)) (opens : line.tag.opens)
    (place : room.place = .outside) : ∃ next, Kept limits room line next := by
  have unmarked : isPlaceholder line = false :=
    not_isPlaceholder fun tag => by simp [tag, Tag.opens] at opens
  refine ⟨_, .opens opens place (holds.conditionals.lt ?_ opens)⟩
  simp [dividesBlock, unmarked]

/-- A line has the room that it takes. -/
theorem Room.Holds.exists_kept (holds : room.Holds limits (line :: rest))
    (header : line.tag ≠ .header) (stepped : position.step line.tag = some after)
    (stands : room.StandsAt position) (place : room.place ≠ .filler) :
    ∃ next, Kept limits room line next := by
  by_cases plain : line.tag.isPlain
  · by_cases change : ∃ kind, line.tag = .change kind
    · obtain ⟨kind, tag⟩ := change
      exact holds.kept_change tag place
    · by_cases placeholder : isPlaceholder line
      · cases standing : room.place with
        | outside => exact ⟨_, .placeholderOutside placeholder standing⟩
        | conditional => exact ⟨_, .placeholderInside placeholder standing⟩
        | filler => exact absurd standing place
      · exact ⟨_, .other plain (not_exists.mp change) (Bool.eq_false_iff.mpr placeholder)⟩
  · cases opens : line.tag.opens with
    | true =>
        obtain ⟨rfl, -⟩ := step_opens opens stepped
        exact holds.kept_opens opens (stands.place_eq_outside place)
    | false =>
        have ends := Tag.closesBody_of_not_isPlain plain header opens
        have inside := stands.mpr (step_closesBody ends stepped).1
        by_cases closes : line.tag.closes
        · exact ⟨_, .closes closes inside⟩
        · have tag : line.tag = .elseOpen := by
            cases tag : line.tag <;> simp_all [Tag.closes, Tag.closesBody]
          exact ⟨_, .elseOpen tag inside⟩

theorem Kept.stands {next : Room} (kept : Kept limits room line next) (header : line.tag ≠ .header)
    (stepped : position.step line.tag = some after) (stands : room.StandsAt position)
    (place : room.place ≠ .filler) : next.StandsAt after ∧ next.place ≠ .filler := by
  by_cases plain : line.tag.isPlain
  · have same := judge_plain plain kept.judge_eq
    rw [step_plain plain] at stepped
    obtain rfl := Option.some.inj stepped
    rw [Room.StandsAt, same]
    exact ⟨stands, place⟩
  · exact (judge_turn plain header stands stepped kept.judge_eq).2.symm

/-- Any other line in a body is in the same body as the line before. -/
theorem Kept.stays {next : Room} (kept : Kept limits room line next)
    (starts : ¬ (line.tag.opens || line.tag = .elseOpen)) (inside : next.place = .conditional) :
    room.place = .conditional ∧ staysInBody line := by
  unfold staysInBody
  cases kept with
  | opens opens _ _ => simp [opens] at starts
  | elseOpen tag _ => simp [tag] at starts
  | closes _ _ => cases inside
  | changeOutside _ place _ | placeholderOutside _ place =>
      exact absurd (place.symm.trans inside) nofun
  | changeInside tag place _ => simp [tag, place, Tag.closesBody]
  | placeholderInside placeholder place =>
      simp [isPlaceholder_tag placeholder, place, Tag.closesBody]
  | other plain _ _ => simp [(Tag.isPlain_iff.mp plain).2.1, inside]

theorem Room.Holds.next {next : Room} (holds : room.Holds limits (line :: rest))
    (kept : Kept limits room line next) : next.Holds limits rest := by
  obtain ⟨conditionals, outside, inside, bodies⟩ := holds
  simp only [placed, kept.isInside] at conditionals outside
  refine ⟨conditionals.tail kept.openings, fun kind => (outside kind).tail (kept.outside kind),
    fun place kind => ?_, fun body listed => bodies body ?_⟩
  · by_cases starts : line.tag.opens || line.tag = .elseOpen
    · rw [(kept.starts starts).2]
      refine bounded_of_blocks fun piece listed => bodies _ ?_ piece listed kind
      rw [Fitting.bodies, if_pos starts]
      exact List.mem_cons_self
    · obtain ⟨standing, stays⟩ := kept.stays starts place
      have body := inside standing kind
      rw [List.takeWhile_cons_of_pos stays] at body
      exact body.tail (kept.inside standing stays kind).2
  · rw [Fitting.bodies]
    split
    · exact List.mem_cons_of_mem _ listed
    · exact listed

theorem Room.Holds.settled (holds : room.Holds limits lines) (headless : Headless lines)
    (nested : Nested position lines) (stands : room.StandsAt position)
    (place : room.place ≠ .filler) : Settled limits room lines := by
  induction lines generalizing room position with
  | nil =>
      obtain rfl : position = .outside := Option.some.inj nested
      exact .nil (stands.place_eq_outside place)
  | cons line rest ih =>
      obtain ⟨header, headless⟩ := headless_cons.mp headless
      obtain ⟨after, stepped, nested⟩ := nested_cons.mp nested
      obtain ⟨next, kept⟩ := holds.exists_kept header stepped stands place
      obtain ⟨stands, place⟩ := kept.stands header stepped stands place
      exact .cons kept (ih (holds.next kept) headless nested stands place)

/-- Well nested lines that fit are settled. -/
theorem Fits.settled (fits : Fits limits lines) (headless : Headless lines)
    (nested : Nested .outside lines) : Settled limits {} lines := by
  have holds : Room.Holds limits {} lines := by
    refine ⟨bounded_of_blocks fits.conditionals, fun kind => ?_, nofun, fits.inside⟩
    rw [Tally.get_empty]
    exact bounded_of_blocks fun block listed => fits.outside block listed kind
  exact holds.settled headless nested (by decide : _ ↔ _) nofun

end Fits

/-! ## Lines to which nothing is added -/

/-- Lines to which fitting adds nothing are settled. -/
theorem Course.settled_of_untouched {limits : Limits} {base : Option String} {position : Position}
    {room : Room} {supply : Supply} {lines : List Line} {fitted : Fitted}
    (course : Course limits base position room supply lines fitted) (fillers : fitted.fillers = 0)
    (moved : fitted.moved = []) (placeholders : fitted.placeholders = [])
    (place : room.place ≠ .filler) : Settled limits room lines := by
  induction course with
  | done outside => exact .nil outside
  | endFiller filler _ _ => exact absurd filler place
  | @plain position room next supply line rest fitted plain verdict same _ _ ih =>
      have kept := kept_plain plain verdict
      rw [Room.seen_eq place, Room.seen_eq (same ▸ place)] at kept
      exact .cons kept (ih fillers moved placeholders (same ▸ place))
  | turn turns header stepped verdict before behind stands _ _ ih =>
      exact .cons (kept_turn turns header stepped before stands verdict)
        (ih fillers moved placeholders behind)
  | fill _ _ _ _ _ _ => cases fillers
  | moveRest _ _ _ _ => cases moved
  | moveBody _ _ _ _ _ _ _ => cases moved
  | markRest _ _ _ _ _ _ _ _ => cases placeholders
  | markBody _ _ _ _ _ _ _ _ => cases placeholders

/-- Containers to which fitting adds nothing are settled. -/
theorem settled_of_untouched {limits : Limits} {supply : Supply} {containers : List Segment}
    (sound : ∀ segment ∈ containers, segment.Sound)
    (fillers : (fitSegments limits supply containers).fillers = 0)
    (auxiliary : (fitSegments limits supply containers).auxiliary = [])
    (placeholders : (fitSegments limits supply containers).placeholders = []) :
    ∀ segment ∈ containers, Settled limits {} segment.body := by
  induction containers generalizing supply with
  | nil => exact nofun
  | cons segment rest ih =>
      obtain ⟨⟨headless, nested⟩, others⟩ := List.forall_mem_cons.mp sound
      obtain ⟨here, fillers⟩ := Nat.add_eq_zero_iff.mp fillers
      obtain ⟨unmoved, auxiliary⟩ := List.append_eq_nil_iff.mp auxiliary
      obtain ⟨unmarked, placeholders⟩ := List.append_eq_nil_iff.mp placeholders
      obtain ⟨fitted, fits, moved, written⟩ := fitSegment_unmoved unmoved
      have noFillers : (fitSegment limits supply segment).1.fillers = 0 := here
      have noPlaceholders : (fitSegment limits supply segment).1.placeholders = [] := unmarked
      have course := Segment.Sound.course ⟨headless, nested⟩ fits.symm
      rw [written] at noFillers noPlaceholders
      refine List.forall_mem_cons.mpr ⟨?_, ih others fillers auxiliary placeholders⟩
      refine course.settled_of_untouched ?_ moved noPlaceholders nofun
      exact (Nat.add_eq_zero_iff.mp noFillers).2

/-! ## Programs -/

/-- Fitting a program adds nothing to it iff it fits already: each of its containers, once health lines
are fused, keeps to the limits in each block and each piece. Then only depths are set. -/
theorem fitProgram_untouched_iff {limits : Limits} {lines : List Line} {outcome : Outcome}
    (fits : fitProgram limits lines = .ok outcome) :
    (outcome.fillers = 0 ∧ outcome.auxiliary = [] ∧ outcome.warnings = [] ↔
        ∀ segment ∈ segments headerName? (fuseHealth lines), Fits limits segment.body) ∧
      ((∀ segment ∈ segments headerName? (fuseHealth lines), Fits limits segment.body) →
        outcome.lines = Line.reindent (fuseHealth lines)) := by
  obtain ⟨nested, rfl⟩ := fitProgram_eq_ok.mp fits
  have sound : ∀ segment ∈ segments headerName? (fuseHealth lines), segment.Sound :=
    segments_sound nested
  have unchanged (fit : ∀ segment ∈ segments headerName? (fuseHealth lines),
      Fits limits segment.body) :
      fitContainers limits (fuseHealth lines) = { lines := fuseHealth lines } := by
    refine fitContainers_eq fun segment listed => ?_
    obtain ⟨headless, nested⟩ := sound segment listed
    exact (fit segment listed).settled headless nested
  refine ⟨⟨?_, fun fit => ?_⟩, fun fit => ?_⟩
  · rintro ⟨fillers, auxiliary, warnings⟩ segment listed
    have placeholders := List.map_eq_nil_iff.mp warnings
    exact (settled_of_untouched sound fillers auxiliary placeholders segment listed).fits
  · rw [unchanged fit]
    exact ⟨rfl, rfl, rfl⟩
  · rw [unchanged fit]
    rfl

/-- A program that takes all the room there is: placeholders of its own outside conditionals and in a
body, and a conditional with two bodies. -/
def snug : List Line :=
  [change "a", placeholderLine 1, change "b", { text := "if and (a > 1) \x7b", tag := .openAll },
    change "c", placeholderLine 2, change "d", { text := "\x7d else \x7b", tag := .elseOpen },
    change "e", { text := "\x7d", tag := .elseClose }, headerLine "f", change "g"]
where
  change (text : String) : Line := { text, tag := .change .player }

theorem fitProgram_untouched_iff_snug :
    ∃ outcome, fitProgram ⟨1, 1⟩ snug = .ok outcome ∧ outcome.fillers = 0 ∧
      (∀ segment ∈ segments headerName? (fuseHealth snug), Fits ⟨1, 1⟩ segment.body) ∧
      outcome.lines = Line.reindent (fuseHealth snug) := by
  have fits : fitProgram ⟨1, 1⟩ snug = .ok (fitContainers ⟨1, 1⟩ snug).reindent :=
    fitProgram_eq_ok.mpr ⟨rfl, rfl⟩
  obtain ⟨untouched, unchanged⟩ := fitProgram_untouched_iff fits
  have fit : ∀ segment ∈ segments headerName? (fuseHealth snug), Fits ⟨1, 1⟩ segment.body := by decide
  exact ⟨_, fits, (untouched.mpr fit).1, fit, unchanged fit⟩

end StatScript.Fitting
