import Mathlib.Algebra.Order.Floor.Div
import StatScript.Proofs.Fitting.Naming
import StatScript.Proofs.Fitting.Origin
import StatScript.Proofs.Fitting.Placeholders
import StatScript.Proofs.Fitting.Worklist

/-!
# Greedy filling

Changes of one kind fill a container step by step: first the room outside conditionals, then one filler behind
the other. When the last filler is full the program is divided and counting starts anew, in an auxiliary container
or behind a placeholder. So the numbers of fillers and of divisions follow from the number of changes alone.

Results:
1. `Room.Filled.judge_lt`, `Room.Filled.judge_full`: what happens to the next change in a container that holds some
   number of them.
2. `fit_straight`, `Family.straight`: the numbers of fillers and divisions of a body, and of what is moved out of
   it.
3. `fitProgram_straight`: the numbers for a program with one container.
-/

namespace StatScript

/-- The changes of one kind that a container holds, outside conditionals and in fillers. -/
def Limits.whole (limits : Limits) : Nat :=
  limits.changes * (limits.conditionals + 1)

namespace Fitting

/-! ## Rooms -/

/-- `room.Filled limits kind used`: of the room of a container, `used` changes of one kind have taken the first
part. -/
inductive Room.Filled (limits : Limits) (kind : ChangeKind) (room : Room) (used : Nat) : Prop
  | outside : room.place = .outside → room.openings = 0 → room.outside.get kind = used →
      used ≤ limits.changes → Filled limits kind room used
  | filler : room.place = .filler → room.outside.get kind = limits.changes →
      1 ≤ room.inside.get kind → room.inside.get kind ≤ limits.changes →
      room.openings ≤ limits.conditionals →
      room.openings * limits.changes + room.inside.get kind = used → Filled limits kind room used

theorem filled_start (limits : Limits) (kind : ChangeKind) : Room.Filled limits kind {} 0 :=
  .outside rfl rfl (Tally.get_empty kind) (Nat.zero_le _)

section Judge

variable {limits : Limits} {kind : ChangeKind} {room : Room} {used : Nat} {line : Line}

theorem Room.Filled.le (filled : room.Filled limits kind used) : used ≤ limits.whole := by
  cases filled with
  | outside _ _ _ le => exact Nat.le_trans le (Nat.le_mul_of_pos_right _ (Nat.succ_pos _))
  | filler _ _ _ inside openings used_eq =>
      rw [← used_eq, Limits.whole, Nat.mul_succ, Nat.mul_comm]
      exact Nat.add_le_add (Nat.mul_le_mul_left _ openings) inside

/-- There is room for a change where the last change went, or a whole number of bodies is full. -/
theorem Room.Filled.change (filled : room.Filled limits kind used) :
    (∃ next, next.Filled limits kind (used + 1) ∧ changeVerdict limits room kind = ⟨false, .keep next⟩ ∧
      ¬ (used ≠ 0 ∧ limits.changes ∣ used)) ∨
    used = (room.openings + 1) * limits.changes ∧ room.outside.get kind = limits.changes ∧
      ∃ closes, changeVerdict limits room kind =
        ⟨closes, outsideAction limits { room with place := .outside } kind⟩ := by
  cases filled with
  | outside place openings used_eq le =>
      by_cases fits : room.outside.get kind < limits.changes
      · refine .inl ⟨{ room with outside := room.outside.bump kind }, ?_, ?_, ?_⟩
        · refine .outside place openings ?_ (by omega)
          simp [used_eq]
        · simp only [changeVerdict, place, outsideAction, if_pos fits]
        · rintro ⟨some, divides⟩
          exact absurd (Nat.le_of_dvd (Nat.pos_of_ne_zero some) divides) (by omega)
      · refine .inr ⟨?_, by omega, false, ?_⟩
        · rw [openings, Nat.zero_add, Nat.one_mul]
          omega
        · have same : { room with place := .outside } = room := by rw [← place]
          rw [same]
          simp only [changeVerdict, place]
  | filler place outside some le openings used_eq =>
      by_cases fits : room.inside.get kind < limits.changes
      · have more : (room.inside.bump kind).get kind = room.inside.get kind + 1 := by
          rw [Tally.get_bump, if_pos rfl]
        refine .inl ⟨{ room with inside := room.inside.bump kind }, ?_, ?_, ?_⟩
        · refine .filler place outside ?_ ?_ openings ?_
          · exact more ▸ Nat.succ_pos _
          · exact more ▸ fits
          · show room.openings * limits.changes + (room.inside.bump kind).get kind = used + 1
            rw [more, ← used_eq, Nat.add_assoc]
        · simp only [changeVerdict, place, if_pos fits]
        · rintro ⟨-, divides⟩
          rw [← used_eq, Nat.dvd_add_right (Nat.dvd_mul_left _ _)] at divides
          exact absurd (Nat.le_of_dvd some divides) (Nat.not_le.mpr fits)
      · refine .inr ⟨?_, outside, true, ?_⟩
        · rw [Nat.succ_mul, ← used_eq]
          omega
        · simp only [changeVerdict, place, if_neg fits]

/-- As long as there is room, a change is kept, or it goes into a new filler where a whole number of bodies is
full. -/
theorem Room.Filled.judge_lt (filled : room.Filled limits kind used) (changes : 1 ≤ limits.changes)
    (tag : line.tag = .change kind) (lt : used < limits.whole) :
    ∃ closes next, next.Filled limits kind (used + 1) ∧ judge limits room line =
      ⟨closes, if used ≠ 0 ∧ limits.changes ∣ used then .fill next else .keep next⟩ := by
  rw [judge_change tag]
  rcases filled.change with ⟨next, filled', kept, other⟩ | ⟨full, outside, closes, verdict⟩
  · exact ⟨false, next, filled', by rw [kept, if_neg other]⟩
  · have more : room.openings < limits.conditionals := by
      rw [full, Limits.whole, Nat.mul_comm] at lt
      exact Nat.lt_of_succ_lt_succ (Nat.lt_of_mul_lt_mul_left lt)
    have whole : used ≠ 0 ∧ limits.changes ∣ used := by
      rw [full]
      exact ⟨(Nat.mul_pos (Nat.succ_pos _) changes).ne', Nat.dvd_mul_left _ _⟩
    refine ⟨closes, { room with place := .filler, openings := room.openings + 1, inside := Tally.one kind },
      ?_, ?_⟩
    · refine .filler rfl outside ?_ ?_ more ?_
      · simp
      · simpa using changes
      · simp [full]
    · rw [verdict, if_pos whole, outsideAction, if_neg (Nat.not_lt.mpr (Nat.le_of_eq outside.symm)),
        if_pos more]

/-- In front of a change for which there is no room left, the program is divided. -/
theorem Room.Filled.judge_full (filled : room.Filled limits kind limits.whole) (changes : 1 ≤ limits.changes)
    (tag : line.tag = .change kind) :
    ∃ closes next, next.Filled limits kind 1 ∧ judge limits room line = ⟨closes, .divideRest next⟩ := by
  rw [judge_change tag]
  rcases filled.change with ⟨-, -, -, other⟩ | ⟨full, outside, closes, verdict⟩
  · refine absurd ⟨?_, Nat.dvd_mul_right _ _⟩ other
    exact (Nat.mul_pos changes (Nat.succ_pos _)).ne'
  · have last : limits.conditionals = room.openings := by
      rw [Limits.whole, Nat.mul_comm] at full
      exact Nat.succ_inj.mp (Nat.eq_of_mul_eq_mul_right changes full)
    refine ⟨closes, { room with place := .outside, openings := 0, outside := Tally.one kind }, ?_, ?_⟩
    · exact .outside rfl rfl (by simp) changes
    · rw [verdict, outsideAction, if_neg (Nat.not_lt.mpr (Nat.le_of_eq outside.symm)),
        if_neg (Nat.not_lt.mpr (Nat.le_of_eq last))]

end Judge

/-! ## Counts -/

/-- The divisions that so many changes of one kind lead to. -/
def divisions (limits : Limits) (count : Nat) : Nat :=
  (count - 1) / limits.whole

/-- The fillers that so many changes of one kind need. -/
def fillersFor (limits : Limits) (count : Nat) : Nat :=
  (count - 1) / limits.changes - divisions limits count

section Counts

variable {limits : Limits}

theorem whole_pos (changes : 1 ≤ limits.changes) : 0 < limits.whole :=
  Nat.mul_pos changes (Nat.succ_pos _)

theorem divisions_le (limits : Limits) (count : Nat) : divisions limits count ≤ (count - 1) / limits.changes := by
  rw [divisions, Limits.whole, ← Nat.div_div_eq_div_mul]
  exact Nat.div_le_self _ _

theorem divisions_eq_zero {count : Nat} (le : count ≤ limits.whole) (changes : 1 ≤ limits.changes) :
    divisions limits count = 0 :=
  Nat.div_eq_of_lt (Nat.lt_of_le_of_lt (Nat.sub_le_sub_right le 1) (Nat.pred_lt (whole_pos changes).ne'))

/-- A filler more is counted behind each whole number of full bodies. -/
theorem div_eq_pred_div (limits : Limits) (used : Nat) :
    used / limits.changes =
      (used - 1) / limits.changes + if used ≠ 0 ∧ limits.changes ∣ used then 1 else 0 := by
  cases used with
  | zero => simp
  | succ used => rw [Nat.succ_div]; simp

/-- A whole container holds as many fillers as it may. -/
theorem whole_add_div (changes : 1 ≤ limits.changes) {count : Nat} (some : 1 ≤ count) :
    (limits.whole + count - 1) / limits.changes = (count - 1) / limits.changes + limits.conditionals + 1 := by
  rw [Nat.add_sub_assoc some, Limits.whole, Nat.mul_add_div changes, Nat.add_comm, Nat.add_assoc]

theorem divisions_whole_add (changes : 1 ≤ limits.changes) {count : Nat} (some : 1 ≤ count) :
    divisions limits (limits.whole + count) = divisions limits count + 1 := by
  rw [divisions, Nat.add_sub_assoc some, Nat.add_div_left _ (whole_pos changes), divisions]

theorem pred_whole_div (changes : 1 ≤ limits.changes) :
    (limits.whole - 1) / limits.changes = limits.conditionals := by
  rw [Limits.whole, Nat.mul_succ, Nat.add_sub_assoc changes, Nat.mul_add_div changes,
    Nat.div_eq_of_lt (Nat.sub_one_lt (Nat.pos_iff_ne_zero.mp changes)), Nat.add_zero]

theorem divisions_eq (changes : 1 ≤ limits.changes) (count : Nat) :
    divisions limits count = count ⌈/⌉ limits.whole - 1 := by
  have whole := whole_pos changes
  rw [divisions, Nat.ceilDiv_eq_add_pred_div]
  cases count with
  | zero => rw [Nat.zero_sub, Nat.zero_div, Nat.zero_add, Nat.div_eq_of_lt (Nat.sub_one_lt whole.ne')]
  | succ count =>
      rw [Nat.add_sub_cancel, Nat.add_right_comm, Nat.add_sub_cancel, Nat.add_div_right _ whole,
        Nat.succ_sub_one]

/-- What does not fit outside goes into fillers. -/
theorem ceilDiv_behind (changes : 1 ≤ limits.changes) (count : Nat) :
    (count + 1 - limits.changes) ⌈/⌉ limits.changes = count / limits.changes := by
  rw [Nat.ceilDiv_eq_add_pred_div]
  by_cases fits : limits.changes ≤ count + 1
  · rw [Nat.sub_add_cancel fits, Nat.add_sub_cancel]
  · have none : count + 1 - limits.changes = 0 := by omega
    have lt : count < limits.changes := by omega
    rw [none, Nat.zero_add, Nat.div_eq_of_lt lt,
      Nat.div_eq_of_lt (Nat.sub_one_lt (Nat.pos_iff_ne_zero.mp changes))]

/-- Each whole container has all of its fillers, and the last one those for what does not fit outside. -/
theorem fillersFor_eq (changes : 1 ≤ limits.changes) (count : Nat) :
    fillersFor limits count = count / limits.whole * limits.conditionals +
      (count % limits.whole - limits.changes) ⌈/⌉ limits.changes := by
  have whole := whole_pos changes
  cases count with
  | zero => simp [fillersFor]
  | succ count =>
      obtain ⟨full, rest, lt, rfl⟩ : ∃ full rest, rest < limits.whole ∧ count = limits.whole * full + rest :=
        ⟨count / limits.whole, count % limits.whole, Nat.mod_lt _ whole, (Nat.div_add_mod ..).symm⟩
      have bodies : (limits.whole * full + rest) / limits.changes =
          full * limits.conditionals + full + rest / limits.changes := by
        rw [Limits.whole, Nat.mul_assoc, Nat.mul_add_div changes, Nat.succ_mul, Nat.mul_comm full]
      have fillers : fillersFor limits (limits.whole * full + rest + 1) =
          full * limits.conditionals + rest / limits.changes := by
        rw [fillersFor, divisions, Nat.add_sub_cancel, bodies, Nat.mul_add_div whole, Nat.div_eq_of_lt lt,
          Nat.add_zero, Nat.add_right_comm, Nat.add_sub_cancel]
      rw [fillers, Nat.add_assoc]
      rcases Nat.lt_or_eq_of_le lt with less | last
      · rw [Nat.mul_add_div whole, Nat.div_eq_of_lt less, Nat.mul_add_mod, Nat.mod_eq_of_lt less, Nat.add_zero,
          ceilDiv_behind changes]
      · have rest_eq : rest = limits.whole - 1 := Nat.eq_sub_of_add_eq last
        rw [show rest + 1 = limits.whole from last, ← Nat.mul_succ, Nat.mul_div_cancel_left _ whole,
          Nat.mul_mod_right, Nat.zero_sub, zero_ceilDiv, rest_eq, pred_whole_div changes, Nat.succ_mul,
          Nat.add_zero]

end Counts

/-! ## Bodies -/

/-- Lines that are all changes of one kind. -/
def Straight (kind : ChangeKind) (lines : List Line) : Prop :=
  ∀ line ∈ lines, line.tag = .change kind

instance (kind : ChangeKind) (lines : List Line) : Decidable (Straight kind lines) :=
  inferInstanceAs (Decidable (∀ line ∈ lines, _))

theorem Straight.headless {kind : ChangeKind} {lines : List Line} (straight : Straight kind lines) :
    Headless lines := by
  intro line member
  rw [straight line member]
  exact nofun

theorem Straight.nested {kind : ChangeKind} {lines : List Line} (straight : Straight kind lines) :
    Nested .outside lines :=
  walk_plain fun line member => by rw [straight line member]; rfl

/-- The auxiliary containers that the lines moved out lead to. -/
def containersFor (limits : Limits) (moved : List Relocation) : Nat :=
  (moved.map fun relocation => divisions limits relocation.body.length + 1).sum

/-- The fillers that the lines moved out lead to. -/
def fillersForAll (limits : Limits) (moved : List Relocation) : Nat :=
  (moved.map fun relocation => fillersFor limits relocation.body.length).sum

section Bodies

variable {limits : Limits} {kind : ChangeKind}

/-- The divisions and fillers that changes lead to, in their body and in what is moved out of it. -/
structure Fitted.Counts (limits : Limits) (used count : Nat) (fitted : Fitted) : Prop where
  divided : fitted.placeholders.length + containersFor limits fitted.moved = divisions limits (used + count)
  filled : fitted.fillers + fillersForAll limits fitted.moved + (used - 1) / limits.changes +
    divisions limits (used + count) = (used + count - 1) / limits.changes

/-- Every change adds what the count of all changes says: nothing, a filler or a division. -/
theorem fit_straight (changes : 1 ≤ limits.changes) (base : Option String) {room : Room} {used : Nat}
    (filled : room.Filled limits kind used) (supply : Supply) {lines : List Line}
    (straight : Straight kind lines) :
    (fit limits base room supply lines).Counts limits used lines.length := by
  induction lines generalizing room used supply with
  | nil =>
      rw [fit]
      have none := divisions_eq_zero filled.le changes
      exact ⟨none.symm, by rw [List.length_nil, Nat.add_zero, none]; exact Nat.zero_add _⟩
  | cons line rest ih =>
      obtain ⟨tag, straight'⟩ := List.forall_mem_cons.mp straight
      rcases Nat.lt_or_eq_of_le filled.le with lt | rfl
      · obtain ⟨closes, next, filled', verdict⟩ := filled.judge_lt changes tag lt
        obtain ⟨divided, counted⟩ := ih filled' supply straight'
        have total : used + 1 + rest.length = used + (line :: rest).length := by
          rw [List.length_cons]
          omega
        have body := div_eq_pred_div limits used
        rw [total] at divided
        rw [total, Nat.add_sub_cancel, body] at counted
        by_cases whole : used ≠ 0 ∧ limits.changes ∣ used
        · rw [if_pos whole] at verdict counted
          rw [fit_fill verdict]
          refine ⟨divided, ?_⟩
          simp only [Fitted.afterFiller, Fitted.after]
          omega
        · rw [if_neg whole] at verdict counted
          rw [fit_keep verdict]
          exact ⟨divided, counted⟩
      · obtain ⟨closes, next, filled', verdict⟩ := filled.judge_full changes tag
        have some : 1 ≤ (line :: rest).length := Nat.succ_pos _
        -- Counting starts anew, in the same container or in the one that the rest is moved into.
        cases base with
        | none =>
            obtain ⟨divided, counted⟩ := ih filled' supply.nextPlaceholder.2 straight'
            have total : 1 + rest.length = (line :: rest).length := Nat.add_comm ..
            rw [total] at divided
            rw [total, Nat.sub_self, Nat.zero_div] at counted
            rw [fit_markRest verdict]
            constructor
            · rw [divisions_whole_add changes some, ← divided]
              exact Nat.add_right_comm ..
            · rw [divisions_whole_add changes some, whole_add_div changes some, pred_whole_div changes,
                ← counted]
              simp only [Fitted.afterPlaceholder, Fitted.after]
              omega
        | some name =>
            have le := divisions_le limits (line :: rest).length
            rw [fit_moveRest verdict]
            constructor
            · rw [divisions_whole_add changes some]
              exact Nat.zero_add _
            · rw [divisions_whole_add changes some, whole_add_div changes some, pred_whole_div changes]
              simp only [Fitted.afterCall, Fitted.after, fillersForAll, fillersFor, List.map_cons, List.map_nil,
                List.sum_cons, List.sum_nil]
              omega

end Bodies

/-! ## Containers -/

section Containers

variable {limits : Limits} {kind : ChangeKind} {base : Option String} {supply behind : Supply}
  {lines : List Line}

theorem Straight.course (straight : Straight kind lines) (limits : Limits) (base : Option String)
    (supply : Supply) : Course limits base .outside {} supply lines (fit limits base {} supply lines) :=
  course_start limits base supply straight.headless straight.nested

/-- What is moved out of changes are changes. -/
theorem Straight.moved (straight : Straight kind lines) (limits : Limits) (base : Option String)
    (supply : Supply) :
    ∀ relocation ∈ (fit limits base {} supply lines).moved, Straight kind relocation.body :=
  fun relocation member line listed =>
    straight line (((straight.course limits base supply).moved relocation member).subset listed)

/-- The counts of a whole body. -/
theorem Straight.counts (straight : Straight kind lines) (changes : 1 ≤ limits.changes)
    (base : Option String) (supply : Supply) {fitted : Fitted} (fits : fitted = fit limits base {} supply lines) :
    fitted.placeholders.length + containersFor limits fitted.moved = divisions limits lines.length ∧
      fitted.fillers + fillersForAll limits fitted.moved = fillersFor limits lines.length := by
  subst fits
  obtain ⟨divided, filled⟩ := fit_straight changes base (filled_start limits kind) supply straight
  rw [Nat.zero_add] at divided filled
  rw [Nat.zero_sub, Nat.zero_div, Nat.add_zero] at filled
  exact ⟨divided, Nat.eq_sub_of_add_eq filled⟩

@[simp]
theorem containersFor_cons (relocation : Relocation) (rest : List Relocation) :
    containersFor limits (relocation :: rest) =
      divisions limits relocation.body.length + 1 + containersFor limits rest := by
  simp [containersFor]

@[simp]
theorem fillersForAll_cons (relocation : Relocation) (rest : List Relocation) :
    fillersForAll limits (relocation :: rest) =
      fillersFor limits relocation.body.length + fillersForAll limits rest := by
  simp [fillersForAll]

@[simp]
theorem containersFor_append (first second : List Relocation) :
    containersFor limits (first ++ second) = containersFor limits first + containersFor limits second := by
  simp [containersFor]

@[simp]
theorem fillersForAll_append (first second : List Relocation) :
    fillersForAll limits (first ++ second) = fillersForAll limits first + fillersForAll limits second := by
  simp [fillersForAll]

/-- The auxiliary containers of changes and the fillers in them are as many as was counted. -/
theorem Family.straight {pending : List Relocation} {members : List Member}
    (family : Family limits base supply pending members behind) (changes : 1 ≤ limits.changes)
    (named : base ≠ none) (straight : ∀ queued ∈ pending, Straight kind queued.body) :
    members.length = containersFor limits pending ∧
      (members.map fun member => member.fitted.fillers).sum = fillersForAll limits pending ∧
      (memberNumbers members).flatten = [] := by
  induction family with
  | nil => exact ⟨rfl, rfl, rfl⟩
  | @cons supply behind relocation rest fitted members fits family ih =>
      obtain ⟨first, others⟩ := List.forall_mem_cons.mp straight
      obtain ⟨divided, filled⟩ := first.counts changes base supply fits
      have unmarked : fitted.placeholders = [] := by
        rw [fits]
        exact (first.course limits base supply).placeholders_eq_nil named
      have moved : ∀ queued ∈ fitted.moved, Straight kind queued.body := by
        rw [fits]
        exact first.moved limits base supply
      obtain ⟨count, fillers, numbers⟩ := ih (List.forall_mem_append.mpr ⟨others, moved⟩)
      rw [unmarked, List.length_nil, Nat.zero_add] at divided
      refine ⟨?_, ?_, ?_⟩
      · simp only [List.length_cons, count, containersFor_append, containersFor_cons, divided]
        omega
      · simp only [List.map_cons, List.sum_cons, fillers, fillersForAll_append, fillersForAll_cons, ← filled]
        omega
      · rw [memberNumbers, List.map_cons, List.flatten_cons, ← memberNumbers, numbers, unmarked]
        rfl

@[simp]
theorem Outcome.fillers_join (outcomes : List Outcome) :
    (Outcome.join outcomes).fillers = (outcomes.map Outcome.fillers).sum := by
  induction outcomes with
  | nil => rfl
  | cons first rest ih => simp [join, ih]

@[simp]
theorem Group.fillers_outcome (group : Group) :
    group.outcome.fillers =
      group.fitted.fillers + (group.members.map fun member => member.fitted.fillers).sum := by
  have member (member : Member) : member.outcome.fillers = member.fitted.fillers := Nat.zero_add _
  simp [outcome, Fitted.outcome, Function.comp_def, member]

/-- The numbers of fillers and divisions for so many changes of one kind. Divisions are auxiliary containers or
warnings. -/
def Outcome.Greedy (limits : Limits) (named : Bool) (count : Nat) (outcome : Outcome) : Prop :=
  outcome.fillers = count / limits.whole * limits.conditionals +
      (count % limits.whole - limits.changes) ⌈/⌉ limits.changes ∧
    if named then outcome.auxiliary.length = count ⌈/⌉ limits.whole - 1 ∧ outcome.warnings = []
    else outcome.auxiliary = [] ∧ outcome.warnings.length = count ⌈/⌉ limits.whole - 1

/-- Placeholders are counted on only in a container without a name. -/
theorem Outcome.Greedy.counts {name : Option String} {count last : Nat} {outcome : Outcome}
    (greedy : outcome.Greedy limits name.isSome count) (seed : last < UInt64.size)
    (small : name = none → last + (count ⌈/⌉ limits.whole - 1) < UInt64.size) :
    last + outcome.warnings.length < UInt64.size := by
  have divided := greedy.2
  cases name with
  | none => exact divided.2 ▸ small rfl
  | some name =>
      have unmarked : outcome.warnings = [] := divided.2
      rwa [unmarked]

/-- A container of changes has as many fillers as was counted, and as many auxiliary containers if it has a name,
or else placeholders. -/
theorem fitSegment_straight (changes : 1 ≤ limits.changes) (conditionals : 1 ≤ limits.conditionals)
    (supply : Supply) (segment : Segment) (straight : Straight kind segment.body) :
    (fitSegment limits supply segment).1.Greedy limits segment.name.isSome segment.body.length := by
  obtain ⟨fitted, fits⟩ : ∃ fitted, fitted = fit limits segment.name {} supply.restart segment.body := ⟨_, rfl⟩
  obtain ⟨members, behind, family, written⟩ :=
    exists_family conditionals segment.name fitted.supply fitted.moved
  have outcome : (fitSegment limits supply segment).1 = Group.outcome ⟨segment, fitted, members⟩ := by
    rw [fitSegment, ← fits, written]
    rfl
  obtain ⟨divided, filled⟩ := straight.counts changes segment.name supply.restart fits
  have course := straight.course limits segment.name supply.restart
  rw [← fits] at course
  rw [outcome, Outcome.Greedy, ← fillersFor_eq changes, ← divisions_eq changes, Group.fillers_outcome,
    Group.auxiliary_outcome, Outcome.warnings, Group.placeholders_outcome, List.length_map, List.map_eq_nil_iff]
  cases named : segment.name with
  | none =>
      rw [named] at course family
      rw [course.moved_eq_nil] at family divided filled
      cases family
      refine ⟨filled, rfl, ?_⟩
      show (fitted.placeholders ++ []).length = _
      rw [List.append_nil, ← divided]
      rfl
  | some name =>
      have base : segment.name ≠ none := by rw [named]; exact Option.some_ne_none name
      have moved : ∀ queued ∈ fitted.moved, Straight kind queued.body := by
        rw [fits]
        exact straight.moved limits segment.name supply.restart
      obtain ⟨count, inner, numbers⟩ := family.straight changes base moved
      have unmarked : fitted.placeholders = [] := course.placeholders_eq_nil base
      refine ⟨by rw [inner, filled], ?_, ?_⟩
      · rw [memberNames, List.length_map, count, ← divided, unmarked]
        exact (Nat.zero_add _).symm
      · rw [Group.numbers, List.flatten_cons, numbers, unmarked]
        rfl

end Containers

/-! ## Programs -/

theorem fitSegment_empty (limits : Limits) (supply : Supply) :
    fitSegment limits supply { header := none, name := none, body := [] } = ({}, supply.restart) := by
  simp only [fitSegment, fit, relocate]
  rfl

section Programs

variable {kind : ChangeKind} {lines body : List Line}

/-- Fused changes are changes. -/
theorem Straight.fuseHealth (straight : Straight kind lines) : Straight kind (fuseHealth lines) := by
  intro shown member
  obtain ⟨index, found⟩ := List.mem_iff_getElem?.mp member
  obtain ⟨before, line, origin⟩ := exists_origin found
  obtain ⟨behind, rfl⟩ := origin.given
  rw [origin.becomes.tag_eq]
  exact straight line (List.mem_append_right _ List.mem_cons_self)

theorem Becomes.headerName?_eq {line shown : Line} (becomes : Becomes line shown) (tag : line.tag = .header) :
    headerName? shown = headerName? line := by
  cases becomes with
  | same => rfl
  | @flagged amount heal sets =>
      have unnamed := containerName?_flagged line amount heal
      have tag' : (Fitting.flagged line amount heal).tag = .header := tag
      rw [containerName?, if_pos tag'] at unnamed
      rw [unnamed, headerName?_eq_none (unflaggedAmount?_eq_some sets)]

/-- In front of changes a header stays first, and what is left behind it are changes. -/
theorem fuseHealth_header (header : Line) (straight : Straight kind body) :
    ∃ shown rest, fuseHealth (header :: body) = shown :: rest ∧ Becomes header shown ∧ Straight kind rest := by
  cases sets : unflaggedAmount? header.text with
  | none => exact ⟨header, _, fuseHealth_keep sets body, .same sets, straight.fuseHealth⟩
  | some amount =>
      by_cases heal : ∃ next ∈ body.head?, heals next
      · obtain ⟨next, head, heal⟩ := heal
        obtain ⟨rest, rfl⟩ := List.head?_eq_some_iff.mp head
        exact ⟨_, _, fuseHealth_heal sets heal rest, .flagged true sets,
          Straight.fuseHealth (List.forall_mem_cons.mp straight).2⟩
      · have stay : ∀ next ∈ body.head?, heals next = false :=
          fun next head => Bool.eq_false_iff.mpr fun heal' => heal ⟨next, head, heal'⟩
        exact ⟨_, _, fuseHealth_stay sets stay, .flagged false sets, straight.fuseHealth⟩

end Programs

section Single

variable {limits : Limits} {kind : ChangeKind} {body : List Line}

/-- The containers of a program without a header, or with one at its start. -/
theorem segments_single {header : Option Line} (headed : ∀ line ∈ header, line.tag = .header)
    (headless : Headless body) :
    segments headerName? (header.toList ++ body) =
      match header with
      | none => [{ header := none, name := none, body }]
      | some line => [{ header := none, name := none, body := [] },
          { header := some line, name := headerName? line, body }] := by
  have cutting : cut headerName? body = (body, []) := by simpa [cut] using cut_append headless []
  cases header with
  | none => rw [Option.toList_none, List.nil_append, segments, cutting]
  | some line =>
      rw [Option.toList_some, List.singleton_append, segments, cut_header (headed line rfl), cutting]

/-- The result for lines that are one container behind the fusion of health lines. -/
theorem fitContainers_single (changes : 1 ≤ limits.changes) (conditionals : 1 ≤ limits.conditionals)
    {header : Option Line} (headed : ∀ line ∈ header, line.tag = .header) (straight : Straight kind body) :
    (fitContainers limits (header.toList ++ body)).Greedy limits (header.bind headerName?).isSome body.length := by
  rw [fitContainers, segments_single headed straight.headless]
  cases header with
  | none =>
      simp only [fitSegments, Outcome.append_empty]
      exact fitSegment_straight changes conditionals _ _ straight
  | some line =>
      simp only [fitSegments, Outcome.append_empty, fitSegment_empty, Outcome.empty_append, Option.bind_some]
      generalize headerName? line = name
      exact fitSegment_straight changes conditionals _ ⟨some line, name, body⟩ straight

/-- Behind the fusion of health lines there is the same header, as far as its name goes, in front of changes. -/
theorem exists_single {header : Option Line} (headed : ∀ line ∈ header, line.tag = .header)
    (straight : Straight kind body) :
    ∃ header' body', fuseHealth (header.toList ++ body) = Option.toList header' ++ body' ∧
      (∀ line ∈ header', line.tag = .header) ∧ header'.bind headerName? = header.bind headerName? ∧
      Straight kind body' ∧ body'.length = body.length - healings (header.toList ++ body) := by
  have length := length_fuseHealth (header.toList ++ body)
  cases header with
  | none =>
      refine ⟨none, fuseHealth body, rfl, headed, rfl, straight.fuseHealth, ?_⟩
      exact Nat.eq_sub_of_add_eq length
  | some line =>
      obtain ⟨shown, rest, fused, becomes, straight'⟩ := fuseHealth_header line straight
      have tag := headed line rfl
      refine ⟨some shown, rest, fused, ?_, ?_, straight', ?_⟩
      · rintro _ ⟨⟩
        rw [becomes.tag_eq, tag]
      · rw [Option.bind_some, Option.bind_some, becomes.headerName?_eq tag]
      · rw [Option.toList_some, List.singleton_append] at length ⊢
        rw [fused, List.length_cons, List.length_cons] at length
        omega

theorem nested_single {header : Option Line} (headed : ∀ line ∈ header, line.tag = .header)
    (straight : Straight kind body) : Nested .outside (header.toList ++ body) := by
  cases header with
  | none => exact straight.nested
  | some line =>
      have nested : Nested .outside ([] ++ line :: body) :=
        (nested_append_header (headed line rfl)).mpr ⟨rfl, straight.nested⟩
      exact nested

/-- Without full heals none is taken up. -/
theorem healings_eq_zero (header : Option Line) (plain : ∀ line ∈ body, heals line = false) :
    healings (header.toList ++ body) = 0 := by
  have behind : (header.toList ++ body).tail ⊆ body := by
    cases header with
    | none => exact List.tail_subset body
    | some line => exact List.Subset.refl body
  refine List.countP_eq_zero.mpr fun pair member taken => ?_
  have heal := (Bool.and_eq_true_iff.mp taken).2
  rw [plain pair.2 (behind (List.of_mem_zip member).2)] at heal
  cases heal

end Single

/-- Greedy filling is exact for a program of one container with `count` changes of one kind. In a container without
a name it is so as long as the count of placeholders does not overflow. -/
def FitsGreedily (limits : Limits) (header : Option Line) (body : List Line) (count : Nat) : Prop :=
  (header.bind headerName? = none →
      lastPlaceholder (fuseHealth (header.toList ++ body)) + (count ⌈/⌉ limits.whole - 1) < UInt64.size) →
    ∃ outcome, fitProgram? limits (header.toList ++ body) = some (.ok outcome) ∧
      outcome.Greedy limits (header.bind headerName?).isSome count

/-- The changes of a container that is all changes of one kind are counted without the full heals that are taken up
into the line before them. Without full heals, all are counted. -/
theorem fitProgram_straight {limits : Limits} (changes : 1 ≤ limits.changes)
    (conditionals : 1 ≤ limits.conditionals) {header : Option Line} {body : List Line} {kind : ChangeKind}
    (headed : ∀ line ∈ header, line.tag = .header) (straight : Straight kind body) :
    FitsGreedily limits header body (body.length - healings (header.toList ++ body)) ∧
      ((∀ line ∈ body, heals line = false) → FitsGreedily limits header body body.length) := by
  have counted : FitsGreedily limits header body (body.length - healings (header.toList ++ body)) := by
    intro small
    obtain ⟨header', body', fused, headed', named, straight', length⟩ := exists_single headed straight
    have nested : Nested .outside (fuseHealth (header.toList ++ body)) := by
      rw [fused]
      exact nested_single headed' straight'
    have greedy := fitContainers_single changes conditionals headed' straight'
    rw [← fused, named, length] at greedy
    refine ⟨_, fitProgram?_eq_ok_iff.mpr ⟨fitProgram_eq_ok.mpr ⟨nested, rfl⟩, ?_⟩, greedy⟩
    exact greedy.counts (lastPlaceholder_lt _) small
  refine ⟨counted, fun plain => ?_⟩
  rwa [healings_eq_zero header plain, Nat.sub_zero] at counted

/-- Five changes of one kind. -/
def march : List Line :=
  List.replicate 5 { text := "stat steps inc 1", tag := .change .player }

theorem fitProgram_straight_march :
    (∃ outcome, fitProgram? ⟨2, 1⟩ (headerLine "f" :: march) = some (.ok outcome) ∧ outcome.fillers = 1 ∧
      outcome.auxiliary.length = 1 ∧ outcome.warnings = []) ∧
    ∃ outcome, fitProgram? ⟨2, 1⟩ march = some (.ok outcome) ∧ outcome.fillers = 1 ∧ outcome.auxiliary = [] ∧
      outcome.warnings.length = 1 := by
  have straight : Straight .player march := by decide
  have plain : ∀ line ∈ march, heals line = false := by decide
  have headed : ∀ line ∈ some (headerLine "f"), line.tag = .header := by
    rintro _ ⟨⟩
    rfl
  have unheaded : ∀ line ∈ (none : Option Line), line.tag = .header := nofun
  have changes : 1 ≤ (⟨2, 1⟩ : Limits).changes := by decide
  have conditionals : 1 ≤ (⟨2, 1⟩ : Limits).conditionals := by decide
  obtain ⟨outcome, fits, fillers, divided⟩ :=
    (fitProgram_straight changes conditionals headed straight).2 plain fun _ => by decide
  obtain ⟨outcome', fits', fillers', divided'⟩ :=
    (fitProgram_straight changes conditionals unheaded straight).2 plain fun _ => by decide
  rw [Option.bind_some, headerName?_headerLine (by decide)] at divided
  exact ⟨⟨outcome, fits, fillers, divided⟩, outcome', fits', fillers', divided'⟩

/-- A full heal that counts as a change. -/
def revival : List Line :=
  [{ text := "maxHealth 20", tag := .change .misc }, { text := "fullHeal", tag := .change .misc }]

theorem not_fitsGreedily_revival :
    Straight .misc revival ∧ revival.length = 2 ∧ ¬ FitsGreedily ⟨1, 1⟩ (some (headerLine "f")) revival 2 := by
  refine ⟨by decide, rfl, fun greedily => ?_⟩
  obtain ⟨outcome, fits, fillers, -⟩ := greedily fun _ => by decide
  obtain ⟨-, rfl⟩ := fitProgram_eq_ok.mp (fitProgram?_eq_ok_iff.mp fits).1
  have none : (fitContainers ⟨1, 1⟩ (fuseHealth (headerLine "f" :: revival))).fillers = 0 := by cbv
  cases none.symm.trans fillers

end Fitting

end StatScript
