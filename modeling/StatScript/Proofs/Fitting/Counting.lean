import StatScript.Proofs.Fitting.Family

/-!
# The count of placeholders

One count of placeholders goes through all containers of a program. It starts at the largest number that the
program has already, and it has 64 bits: where a number does not fit, the program is given up. That takes a
placeholder with a huge number in the program, because no more numbers are given out than there are lines.

Results:
1. `counted_fit`, `counted_relocate`, `counted_fitSegments`: the numbers given out are consecutive.
2. `fitProgram?_eq_ok_iff`, `fitProgram?_eq_error_iff`: the results are those of a count without bound.
3. `fitProgram?_eq_some_iff`: a program is given up only where the count overflows.
4. `countable_of_short`: it does not if there is room for a number for each line.
-/

namespace StatScript.Fitting

/-! ## Consecutive numbers -/

/-- `numbers` follow the count of the first supply, and the second one counts on behind them. -/
structure Supply.Counted (before : Supply) (numbers : List Nat) (behind : Supply) : Prop where
  consecutive : numbers = List.range' (before.placeholder + 1) numbers.length
  count : behind.placeholder = before.placeholder + numbers.length

namespace Supply.Counted

variable {before middle behind : Supply} {first second : List Nat}

theorem refl (supply : Supply) : Counted supply [] supply :=
  ⟨rfl, rfl⟩

theorem append (left : Counted before first middle) (right : Counted middle second behind) :
    Counted before (first ++ second) behind := by
  constructor
  · rw [List.length_append, ← List.range'_append_1, ← left.consecutive, Nat.add_right_comm,
      ← left.count, ← right.consecutive]
  · rw [List.length_append, ← Nat.add_assoc, ← left.count, right.count]

theorem nextPlaceholder (supply : Supply) :
    Counted supply [supply.nextPlaceholder.1] supply.nextPlaceholder.2 :=
  ⟨rfl, rfl⟩

theorem nextName (supply : Supply) (base : String) : Counted supply [] (supply.nextName base).2 :=
  ⟨rfl, rfl⟩

end Supply.Counted

open Supply (Counted)

section Counting

variable (limits : Limits)

/-- The placeholders of a body are numbered one after another. -/
theorem counted_fit (base : Option String) (room : Room) (supply : Supply) (lines : List Line) :
    Counted supply (fit limits base room supply lines).placeholders
      (fit limits base room supply lines).supply := by
  refine fit_induction limits base
    (motive := fun supply _ fitted => Counted supply fitted.placeholders fitted.supply)
    ?done ?keep ?fill ?moveRest ?moveBody ?mark room supply lines
  case done => exact fun _ _ => .refl _
  case keep | fill => exact fun _ ih => ih
  case moveRest => exact fun _ _ => .nextName _ _
  case moveBody => exact fun _ _ ih => Counted.append (.nextName _ _) ih
  case mark => exact fun _ ih => Counted.append (.nextPlaceholder _) ih

theorem counted_relocate (base : Option String) (supply : Supply) (pending : List Relocation) :
    Counted supply (relocate limits base supply pending).1.placeholders
      (relocate limits base supply pending).2 := by
  induction supply, pending using relocate.induct limits base with
  | case1 supply => rw [relocate]; exact .refl _
  | case2 supply relocation rest fitted fewer _ _ _ ih =>
      rw [relocate, if_pos fewer]
      exact (counted_fit limits base {} supply relocation.body).append ih
  | case3 supply relocation rest fitted more _ _ _ ih =>
      rw [relocate, if_neg more]
      exact ih

theorem counted_fitSegment (supply : Supply) (segment : Segment) :
    Counted supply (fitSegment limits supply segment).1.placeholders
      (fitSegment limits supply segment).2 := by
  have own := counted_fit limits segment.name {} supply.restart segment.body
  have start : Counted supply _ _ := ⟨own.consecutive, own.count⟩
  exact start.append (counted_relocate limits segment.name _ _)

/-- The placeholders of a program are numbered one after another through all containers. -/
theorem counted_fitSegments (supply : Supply) (containers : List Segment) :
    ∃ behind, Counted supply (fitSegments limits supply containers).placeholders behind := by
  induction containers generalizing supply with
  | nil => exact ⟨supply, .refl _⟩
  | cons segment rest ih =>
      obtain ⟨behind, others⟩ := ih (fitSegment limits supply segment).2
      exact ⟨behind, (counted_fitSegment limits supply segment).append others⟩

/-! ## No more numbers than lines -/

/-- Each placeholder stands for a line that is not moved out. -/
theorem length_placeholders_fit (base : Option String) (room : Room) (supply : Supply) (lines : List Line) :
    (fit limits base room supply lines).placeholders.length +
      movedLines (fit limits base room supply lines).moved ≤ lines.length := by
  refine fit_induction limits base
    (motive := fun _ lines fitted => fitted.placeholders.length + movedLines fitted.moved ≤ lines.length)
    ?done ?keep ?fill ?moveRest ?moveBody ?mark room supply lines
  case done => exact fun _ _ => Nat.le_refl 0
  case keep | fill => exact fun _ ih => Nat.le_succ_of_le ih
  case moveRest => exact fun _ _ => Nat.le_of_eq (Nat.zero_add _)
  case moveBody =>
      intro room next supply line rest name fitted _ _ ih
      have body : (rest.takeWhile staysInBody).length + (rest.dropWhile staysInBody).length = rest.length := by
        rw [← List.length_append, List.takeWhile_append_dropWhile]
      show fitted.placeholders.length + (_ + 1 + movedLines fitted.moved) ≤ rest.length + 1
      omega
  case mark =>
      intro supply line rest fitted _ ih
      show fitted.placeholders.length + 1 + movedLines fitted.moved ≤ rest.length + 1
      omega

theorem length_placeholders_relocate (base : Option String) (supply : Supply) (pending : List Relocation) :
    (relocate limits base supply pending).1.placeholders.length ≤ movedLines pending := by
  induction supply, pending using relocate.induct limits base with
  | case1 supply => rw [relocate]; exact Nat.le_refl 0
  | case2 supply relocation rest fitted fewer _ _ _ ih =>
      have own : fitted.placeholders.length + movedLines fitted.moved ≤ relocation.body.length :=
        length_placeholders_fit limits base {} supply relocation.body
      rw [movedLines_append] at ih
      rw [relocate, if_pos fewer, movedLines]
      calc (fitted.placeholders ++ _).length
          = fitted.placeholders.length + _ := List.length_append
        _ ≤ fitted.placeholders.length + (movedLines rest + movedLines fitted.moved) := Nat.add_le_add_left ih _
        _ ≤ relocation.body.length + movedLines rest := by omega
  | case3 supply relocation rest fitted more _ _ _ ih =>
      rw [relocate, if_neg more, movedLines]
      exact Nat.le_add_left_of_le ih

theorem length_placeholders_fitSegment (supply : Supply) (segment : Segment) :
    (fitSegment limits supply segment).1.placeholders.length ≤ segment.body.length := by
  obtain ⟨fitted, fits⟩ : ∃ fitted, fitted = fit limits segment.name {} supply.restart segment.body := ⟨_, rfl⟩
  have own := length_placeholders_fit limits segment.name {} supply.restart segment.body
  rw [fitSegment, ← fits]
  rw [← fits] at own
  calc (fitted.placeholders ++ _).length
      = fitted.placeholders.length + _ := List.length_append
    _ ≤ fitted.placeholders.length + movedLines fitted.moved :=
        Nat.add_le_add_left (length_placeholders_relocate limits segment.name _ _) _
    _ ≤ segment.body.length := own

/-- A program has no more placeholders than lines. -/
theorem length_placeholders_fitSegments (supply : Supply) (containers : List Segment) :
    (fitSegments limits supply containers).placeholders.length ≤
      (containers.flatMap Segment.lines).length := by
  induction containers generalizing supply with
  | nil => exact Nat.le_refl 0
  | cons segment rest ih =>
      have own : segment.body.length ≤ segment.lines.length := by
        rw [Segment.lines, List.length_append]
        exact Nat.le_add_left _ _
      rw [List.flatMap_cons, List.length_append]
      refine Nat.le_trans (Nat.le_of_eq List.length_append) ?_
      exact Nat.add_le_add (Nat.le_trans (length_placeholders_fitSegment limits supply segment) own) (ih _)

end Counting

/-! ## The bound -/

section Bound

variable {limits : Limits} {lines : List Line} {outcome : Outcome} {error : StructureError}

/-- A number that is read from a text fits into 64 bits. -/
theorem count?_lt {text : String} {number : Nat} (read : Text.count? text = some number) :
    number < UInt64.size := by
  unfold Text.count? at read
  split at read
  all_goals
    obtain ⟨value, -, bounded⟩ := Option.bind_eq_some_iff.mp read
    obtain ⟨small, same⟩ := Option.ite_none_right_eq_some.mp bounded
    exact Option.some.inj same ▸ small

theorem lastPlaceholder_lt (lines : List Line) : lastPlaceholder lines < UInt64.size := by
  refine List.foldlRecOn (motive := (· < UInt64.size)) _ max (by decide) fun last small number member => ?_
  obtain ⟨line, -, read⟩ := List.mem_filterMap.mp member
  obtain ⟨digits, -, read⟩ := Option.bind_eq_some_iff.mp read
  exact Nat.max_lt.mpr ⟨small, count?_lt read⟩

/-- The placeholders of a fitted program are numbered on from the last one that it had. -/
theorem placeholders_fitProgram (fits : fitProgram limits lines = .ok outcome) :
    outcome.placeholders =
      List.range' (lastPlaceholder (fuseHealth lines) + 1) outcome.warnings.length := by
  obtain ⟨-, rfl⟩ := fitProgram_eq_ok.mp fits
  obtain ⟨behind, counted⟩ := counted_fitSegments limits (programSupply (fuseHealth lines))
    (segments headerName? (fuseHealth lines))
  rw [Outcome.warnings, List.length_map]
  exact counted.consecutive

/-- All numbers fit into 64 bits iff the last one does. -/
theorem isCounted_iff (fits : fitProgram limits lines = .ok outcome) :
    outcome.isCounted ↔ lastPlaceholder (fuseHealth lines) + outcome.warnings.length < UInt64.size := by
  have seed := lastPlaceholder_lt (fuseHealth lines)
  rw [Outcome.isCounted, List.all_eq_true, placeholders_fitProgram fits]
  simp only [List.mem_range'_1, decide_eq_true_eq]
  constructor
  · intro small
    by_cases none : outcome.warnings.length = 0
    · rwa [none]
    · exact small _ (by omega)
  · intro small number between
    omega

/-- A program is fitted as without a bound, if the last number fits into 64 bits. -/
theorem fitProgram?_eq_ok_iff :
    fitProgram? limits lines = some (.ok outcome) ↔ fitProgram limits lines = .ok outcome ∧
      lastPlaceholder (fuseHealth lines) + outcome.warnings.length < UInt64.size :=
  counted?_eq_ok_iff.trans (and_congr_right isCounted_iff)

/-- A program that is refused has counted nothing. -/
theorem fitProgram?_eq_error_iff :
    fitProgram? limits lines = some (.error error) ↔ fitProgram limits lines = .error error :=
  counted?_eq_error_iff

/-- The count of placeholders does not overflow: if the lines can be fitted, the number of the last placeholder
fits into 64 bits. -/
def Countable (limits : Limits) (lines : List Line) : Prop :=
  ∀ outcome, fitProgram limits lines = .ok outcome →
    lastPlaceholder (fuseHealth lines) + outcome.warnings.length < UInt64.size

/-- Lines that are refused ask for no number. -/
theorem countable_of_error (refused : fitProgram limits lines = .error error) : Countable limits lines := by
  rw [Countable, refused]
  exact nofun

/-- A program is given up only where the count overflows. -/
theorem fitProgram?_eq_some_iff :
    fitProgram? limits lines = some (fitProgram limits lines) ↔ Countable limits lines := by
  cases result : fitProgram limits lines with
  | error error => exact iff_of_true (fitProgram?_eq_error_iff.mpr result) (countable_of_error result)
  | ok outcome =>
      rw [fitProgram?_eq_ok_iff, and_iff_right result, Countable, result]
      exact ⟨by rintro small _ ⟨⟩; exact small, fun small => small outcome rfl⟩

/-- With room for a number for each line the count does not overflow. -/
theorem countable_of_short
    (short : lastPlaceholder (fuseHealth lines) + (fuseHealth lines).length < UInt64.size) :
    Countable limits lines := by
  intro outcome fits
  obtain ⟨-, rfl⟩ := fitProgram_eq_ok.mp fits
  have few := length_placeholders_fitSegments limits (programSupply (fuseHealth lines))
    (segments headerName? (fuseHealth lines))
  have flat : (segments headerName? (fuseHealth lines)).flatMap Segment.lines = fuseHealth lines :=
    cut_flatten headerName? (fuseHealth lines)
  rw [flat] at few
  refine Nat.lt_of_le_of_lt (Nat.add_le_add_left ?_ _) short
  rw [Outcome.warnings, List.length_map]
  exact few

end Bound

end StatScript.Fitting
