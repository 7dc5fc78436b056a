import StatScript.Proofs.Fitting.Origin

/-!
# Fusing is local

What becomes of a line when health lines are fused follows from the line and its two neighbours, so the parts
of a program can be fused alone.

Results:
1. `fuseHealth_append`, `fuseHealth_join`: so it is, unless the second part begins with a full heal that the
   last line of the first takes up.
2. `fuseHealth_split`: a line that says whether it heals and is not taken up stays where it is.
3. `filterMap_shown?`: the fused program, line by line.
4. `fuseHealth_local`: all of this, and how much shorter the fused program is.
-/

namespace StatScript.Fitting

/-! ## Neighbours -/

/-- Whether a line is a full heal that the line directly before it, if there is one, takes up. -/
def isTakenUp (before : Option Line) (line : Line) : Bool :=
  heals line && before.any fun last => (unflaggedAmount? last.text).isSome

/-- A line of a program with the lines directly before and behind it. -/
structure Spot where
  before : Option Line
  line : Line
  behind : Option Line
deriving DecidableEq, Repr

/-- The lines behind a given one with their neighbours. -/
def spotsFrom (before : Option Line) : List Line → List Spot
  | [] => []
  | line :: rest => { before, line, behind := rest.head? } :: spotsFrom (some line) rest

/-- The lines of a program with their neighbours. -/
def spots (lines : List Line) : List Spot :=
  spotsFrom none lines

/-- What is left of a line: a line that does not say whether it heals is given its last word, a full heal that
is taken up goes, and all else is kept as it is. -/
def Spot.shown? (spot : Spot) : Option Line :=
  match unflaggedAmount? spot.line.text with
  | some amount => some (flagged spot.line amount (spot.behind.any heals))
  | none => if isTakenUp spot.before spot.line then none else some spot.line

/-- Whether a line did not say whether it heals, and is left with `true` as its last word. -/
def Spot.isHealed (spot : Spot) : Bool :=
  (unflaggedAmount? spot.line.text).isSome &&
    spot.shown?.any fun shown => (Text.words shown.text).getLast? = some "true"

section Neighbours

variable {first second : List Line} {line next : Line} {before : Option Line} {amount : String}

@[simp]
theorem isTakenUp_none (line : Line) : isTakenUp none line = false := by
  rw [isTakenUp, Option.any_none, Bool.and_false]

@[simp]
theorem isTakenUp_some (last line : Line) :
    isTakenUp (some last) line = (heals line && (unflaggedAmount? last.text).isSome) :=
  rfl

/-- Only a line that does not say whether it heals takes a full heal up. -/
theorem isTakenUp_flagged (plain : Flagged line) (next : Line) : isTakenUp (some line) next = false := by
  simp [show unflaggedAmount? line.text = none from plain]

theorem isTakenUp_of_not_heals (stay : heals line = false) (before : Option Line) :
    isTakenUp before line = false := by
  rw [isTakenUp, stay, Bool.false_and]

/-- A line that does not say whether it heals takes up every full heal directly behind it. -/
theorem heals_eq_false (sets : unflaggedAmount? line.text = some amount)
    (apart : isTakenUp (some line) next = false) : heals next = false := by
  simpa [sets] using apart

/-- A line that is taken up says whether it heals. -/
theorem not_heals_of_sets (sets : unflaggedAmount? line.text = some amount) : heals line = false := by
  by_contra heal
  have plain : unflaggedAmount? line.text = none := flagged_of_heals (Bool.not_eq_false _ ▸ heal)
  rw [plain] at sets
  cases sets

/-! ## Parts of a program -/

/-- Parts of a program are fused alone, unless a full heal between them is taken up. -/
theorem fuseHealth_append (apart : ∀ next ∈ second.head?, isTakenUp first.getLast? next = false) :
    fuseHealth (first ++ second) = fuseHealth first ++ fuseHealth second := by
  fun_induction fuseHealth first with
  | case1 => rfl
  | case2 line plain => exact fuseHealth_keep plain second
  | case3 line amount sets =>
      exact fuseHealth_stay sets fun next head => heals_eq_false sets (apart next head)
  | case4 line next rest plain ih =>
      rw [List.cons_append, fuseHealth_keep plain, ih apart, List.cons_append]
  | case5 line next rest amount sets heal ih =>
      have apart' : ∀ other ∈ second.head?, isTakenUp rest.getLast? other = false := by
        cases rest with
        | nil => exact fun other _ => isTakenUp_none other
        | cons third rest => exact apart
      rw [List.cons_append, List.cons_append, fuseHealth_heal sets heal, ih apart', List.cons_append]
  | case6 line next rest amount sets stay ih =>
      have stay' : ∀ other ∈ (next :: rest ++ second).head?, heals other = false := by
        rintro other ⟨⟩
        exact Bool.eq_false_iff.mpr stay
      rw [List.cons_append, fuseHealth_stay sets stay', ih apart, List.cons_append]

/-- A full heal between two parts goes into the line before it. -/
theorem fuseHealth_join (sets : unflaggedAmount? line.text = some amount) (heal : heals next)
    (first second : List Line) :
    fuseHealth (first ++ line :: next :: second) =
      fuseHealth first ++ flagged line amount true :: fuseHealth second := by
  have apart : ∀ other ∈ (line :: next :: second).head?, isTakenUp first.getLast? other = false := by
    rintro other ⟨⟩
    exact isTakenUp_of_not_heals (not_heals_of_sets sets) _
  rw [fuseHealth_append apart, fuseHealth_heal sets heal]

/-- A line that needs no last word and is not taken up stays, between what is left of the lines around it. -/
theorem fuseHealth_split {before : List Line} (plain : Flagged line)
    (apart : isTakenUp before.getLast? line = false) (behind : List Line) :
    fuseHealth (before ++ line :: behind) = fuseHealth before ++ line :: fuseHealth behind := by
  have apart' : ∀ other ∈ (line :: behind).head?, isTakenUp before.getLast? other = false := by
    rintro other ⟨⟩
    exact apart
  rw [fuseHealth_append apart', fuseHealth_keep plain]

/-- Fused alone, the two parts have one line more than together, if a full heal between them is taken up. -/
theorem fuseHealth_append_iff (first second : List Line) :
    fuseHealth (first ++ second) = fuseHealth first ++ fuseHealth second ↔
      ∀ next ∈ second.head?, isTakenUp first.getLast? next = false := by
  refine ⟨fun same next head => ?_, fuseHealth_append⟩
  by_contra taken
  rw [Bool.not_eq_false, isTakenUp, Bool.and_eq_true, Option.any_eq_true] at taken
  obtain ⟨heal, line, last, sets⟩ := taken
  obtain ⟨amount, sets⟩ := Option.isSome_iff_exists.mp sets
  obtain ⟨before, rfl⟩ := List.getLast?_eq_some_iff.mp last
  obtain ⟨behind, rfl⟩ := List.head?_eq_some_iff.mp head
  have alone : fuseHealth (before ++ [line]) = fuseHealth before ++ [flagged line amount false] := by
    have apart : ∀ other ∈ [line].head?, isTakenUp before.getLast? other = false := by
      rintro other ⟨⟩
      exact isTakenUp_of_not_heals (not_heals_of_sets sets) _
    rw [fuseHealth_append apart, fuseHealth_stay sets fun _ none => by cases none]
    rfl
  rw [List.append_assoc, List.singleton_append, fuseHealth_join sets heal, alone,
    fuseHealth_keep (flagged_of_heals heal)] at same
  have lengths := congrArg List.length same
  simp only [List.length_append, List.length_cons, List.length_nil] at lengths
  omega

/-! ## Line by line -/

/-- The fused program is what is left of each line. -/
theorem filterMap_shown? {lines : List Line} (apart : ∀ next ∈ lines.head?, isTakenUp before next = false) :
    (spotsFrom before lines).filterMap Spot.shown? = fuseHealth lines := by
  fun_induction fuseHealth lines generalizing before with
  | case1 => rfl
  | case2 line plain => simp [spotsFrom, Spot.shown?, plain, apart line rfl]
  | case3 line amount sets => simp [spotsFrom, Spot.shown?, sets]
  | case4 line next rest plain ih =>
      have shown : Spot.shown? ⟨before, line, some next⟩ = some line := by
        simp [Spot.shown?, plain, apart line rfl]
      rw [spotsFrom, List.head?_cons, List.filterMap_cons_some shown,
        ih fun other _ => isTakenUp_flagged plain other]
  | case5 line next rest amount sets heal ih =>
      have shown : Spot.shown? ⟨before, line, some next⟩ = some (flagged line amount true) := by
        simp [Spot.shown?, sets, heal]
      have plain : Flagged next := flagged_of_heals heal
      have gone : Spot.shown? ⟨some line, next, rest.head?⟩ = none := by
        simp [Spot.shown?, show unflaggedAmount? next.text = none from plain, isTakenUp_some, heal, sets]
      rw [spotsFrom, List.head?_cons, List.filterMap_cons_some shown, spotsFrom, List.filterMap_cons_none gone,
        ih fun other _ => isTakenUp_flagged plain other]
  | case6 line next rest amount sets stay ih =>
      have stay' : heals next = false := Bool.eq_false_iff.mpr stay
      have shown : Spot.shown? ⟨before, line, some next⟩ = some (flagged line amount false) := by
        simp [Spot.shown?, sets, stay']
      have apart' : ∀ other ∈ (next :: rest).head?, isTakenUp (some line) other = false := by
        rintro other ⟨⟩
        exact isTakenUp_of_not_heals stay' _
      rw [spotsFrom, List.head?_cons, List.filterMap_cons_some shown, ih apart']

theorem Spot.isHealed_eq (spot : Spot) :
    spot.isHealed = ((unflaggedAmount? spot.line.text).isSome && spot.behind.any heals) := by
  unfold Spot.isHealed Spot.shown?
  split
  · next amount sets =>
      rw [sets, Option.any_some, words_flagged _ sets]
      cases spot.behind.any heals <;> simp
  · next plain => rw [plain, Option.isSome_none, Bool.false_and, Bool.false_and]

/-- The lines left with `true` as their last word are those that take a full heal up. -/
theorem countP_isHealed (before : Option Line) (lines : List Line) :
    (spotsFrom before lines).countP Spot.isHealed = healings lines := by
  induction lines generalizing before with
  | nil => rfl
  | cons line rest ih =>
      rw [spotsFrom, List.countP_cons, ih, Spot.isHealed_eq]
      cases rest with
      | nil => simp [healings]
      | cons next rest => simp [healings_cons]

end Neighbours

/-- Fusing does not reach beyond neighbours. Parts of a program are fused alone iff no full heal between them is
taken up; fusing again changes nothing, since every line left says whether it heals; a line that said so, or
says nothing about health, and is not taken up stays as it is between what is left of the lines around it; and
one line is lost for each that is given `true` as its last word. -/
theorem fuseHealth_local (first second : List Line) :
    (fuseHealth (first ++ second) = fuseHealth first ++ fuseHealth second ↔
      ∀ next ∈ second.head?, isTakenUp first.getLast? next = false) ∧
    fuseHealth (fuseHealth first) = fuseHealth first ∧
    (∀ line ∈ fuseHealth first, unflaggedAmount? line.text = none) ∧
    (∀ before line behind, first = before ++ line :: behind → unflaggedAmount? line.text = none →
      isTakenUp before.getLast? line = false →
        fuseHealth first = fuseHealth before ++ line :: fuseHealth behind) ∧
    fuseHealth first = (spots first).filterMap Spot.shown? ∧
    (fuseHealth first).length + (spots first).countP Spot.isHealed = first.length := by
  have flagged : ∀ line ∈ fuseHealth first, Flagged line := fun line member => (mem_fuseHealth member).flagged
  refine ⟨fuseHealth_append_iff first second, fuseHealth_eq_self flagged, flagged, ?_, ?_, ?_⟩
  · rintro before line behind rfl plain apart
    exact fuseHealth_split plain apart behind
  · exact (filterMap_shown? fun next _ => isTakenUp_none next).symm
  · rw [spots, countP_isHealed, length_fuseHealth]

/-- Two lines that set the maximal health, with two full heals behind the first. -/
def infirmary : List Line :=
  [{ text := "maxHealth 40", tag := .change .misc }, { text := " fullHeal", tag := .misc },
    { text := "fullHeal", tag := .misc }, { text := "maxHealth 20", tag := .change .misc },
    { text := "chat \"hi\"", tag := .misc }]

/-- Only the first full heal is taken up. -/
theorem fuseHealth_local_infirmary :
    isTakenUp (some { text := "maxHealth 20", tag := .change .misc }) { text := "chat \"hi\"", tag := .misc } = false ∧
      fuseHealth infirmary =
        fuseHealth (infirmary.take 4) ++ [{ text := "chat \"hi\"", tag := .misc }] ∧
      (fuseHealth infirmary).length + 1 = infirmary.length := by
  obtain ⟨-, -, -, kept, -, length⟩ := fuseHealth_local infirmary []
  have apart : isTakenUp (some { text := "maxHealth 20", tag := .change .misc })
      { text := "chat \"hi\"", tag := .misc } = false := by decide
  refine ⟨apart, kept (infirmary.take 4) _ [] rfl (by decide) apart, ?_⟩
  have one : (spots infirmary).countP Spot.isHealed = 1 := by decide
  rwa [one] at length

end StatScript.Fitting
