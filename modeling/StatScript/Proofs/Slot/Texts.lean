import StatScript.Proofs.Machine.Cells

/-!
# Slots with the same texts

A slot is written by the words of its key with single spaces between them, and nothing in a name is escaped. Here
it is said for arbitrary names which keys have the same texts. A temp is written like a stat of the player and
counts on names of its own, so a stat that was given the name of a temp is set apart as a namesake.

Results:
1. `Text.cases_of_join_eq`: two texts joined by a space are cut apart in one way, or the cut is moved to another
   space.
2. `SlotKey.place_eq_iff`: keys that are no namesakes agree in word and name if they are the same, or if they are
   teams that clash.
3. `Slot.texts_eq_iff`: so do both sides of a change. Names without spaces keep slots apart.
-/

namespace StatScript

/-- Two texts joined by a space are cut apart in one way, or the cut is moved to another space. -/
theorem Text.cases_of_join_eq {first second first' second' : String}
    (same : first ++ " " ++ second = first' ++ " " ++ second') :
    (first = first' ∧ second = second') ∨
      (∃ middle, first' = first ++ " " ++ middle ∧ second = middle ++ " " ++ second') ∨
      ∃ middle, first = first' ++ " " ++ middle ∧ second' = middle ++ " " ++ second := by
  have space (cs : List Char) : " ".toList ++ cs = ' ' :: cs := rfl
  have texts : first.toList ++ ' ' :: second.toList = first'.toList ++ ' ' :: second'.toList := by
    simpa only [String.toList_append, List.append_assoc, space] using congrArg String.toList same
  -- One of the first parts begins the other; behind it stands nothing, or a space and the middle.
  have moved {left right left' right' : String} {rest : List Char}
      (longer : left'.toList = left.toList ++ rest)
      (behind : ' ' :: right.toList = rest ++ ' ' :: right'.toList) :
      (left = left' ∧ right = right') ∨
        ∃ middle, left' = left ++ " " ++ middle ∧ right = middle ++ " " ++ right' := by
    cases rest with
    | nil =>
        refine .inl ⟨?_, ?_⟩
        · exact String.toList_inj.mp (by rw [longer, List.append_nil])
        · exact String.toList_inj.mp (List.cons.inj behind).2
    | cons c middle =>
        rw [List.cons_append] at behind
        obtain ⟨rfl, right_eq⟩ := List.cons.inj behind
        refine .inr ⟨String.ofList middle, String.toList_inj.mp ?_, String.toList_inj.mp ?_⟩
        · simp only [String.toList_append, String.toList_ofList, List.append_assoc, space, longer]
        · simp only [String.toList_append, String.toList_ofList, List.append_assoc, space, right_eq]
  rcases List.append_eq_append_iff.mp texts with ⟨rest, longer, behind⟩ | ⟨rest, longer, behind⟩
  · rcases moved longer behind with equal | moved
    · exact .inl equal
    · exact .inr (.inl moved)
  · rcases moved longer behind with ⟨left, right⟩ | moved
    · exact .inl ⟨left.symm, right.symm⟩
    · exact .inr (.inr moved)

namespace SlotKey

/-- One of the keys is a temp, and the other a stat of the player with the name of that temp. -/
def Namesakes (first second : SlotKey) : Prop :=
  ∃ number, (first = temp number ∧ second = player (temp number).name) ∨
    (first = player (temp number).name ∧ second = temp number)

/-- `Shadows first second`: the name of the second takes up the first words of the team of the first, so it is
written like the first. -/
inductive Shadows : SlotKey → SlotKey → Prop
  | team (name middle holder : String) :
      Shadows (team name (middle ++ " " ++ holder)) (team (name ++ " " ++ middle) holder)

/-- One of the keys is written like the other, though their teams are different. -/
def Clashes (first second : SlotKey) : Prop :=
  first.Shadows second ∨ second.Shadows first

variable {first second : SlotKey}

theorem Shadows.place_eq (shadows : first.Shadows second) :
    first.leftWord = second.leftWord ∧ first.qualifiedName = second.qualifiedName := by
  cases shadows with
  | team name middle holder =>
      refine ⟨rfl, ?_⟩
      simp only [qualifiedName, team?, SlotKey.name, String.append_assoc]

theorem clashes_of_team {name holder name' holder' : String}
    (same : name ++ " " ++ holder = name' ++ " " ++ holder') :
    team name holder = team name' holder' ∨ (team name holder).Clashes (team name' holder') := by
  rcases Text.cases_of_join_eq same with ⟨rfl, rfl⟩ | ⟨middle, rfl, rfl⟩ | ⟨middle, rfl, rfl⟩
  · exact .inl rfl
  · exact .inr (.inl (.team _ _ _))
  · exact .inr (.inr (.team _ _ _))

/-- Word and name agree for the same key and for keys that clash. -/
theorem place_eq_iff (apart : ¬ first.Namesakes second) :
    (first.leftWord = second.leftWord ∧ first.qualifiedName = second.qualifiedName) ↔
      first = second ∨ first.Clashes second := by
  constructor
  · rintro ⟨word, name⟩
    -- Stats of the player and temps share their word; all other words differ.
    cases first with
    | player name' =>
        cases second with
        | player other => exact .inl (congrArg player name)
        | temp number => exact absurd ⟨number, .inr ⟨congrArg player name, rfl⟩⟩ apart
        | global _ | team _ _ => exact absurd word (by simp [leftWord])
    | global name' =>
        cases second with
        | global other => exact .inl (congrArg global name)
        | player _ | team _ _ | temp _ => exact absurd word (by simp [leftWord])
    | team name' holder =>
        cases second with
        | team other holder' => exact clashes_of_team name
        | player _ | global _ | temp _ => exact absurd word (by simp [leftWord])
    | temp number =>
        cases second with
        | temp other =>
            have number_eq := Nat.repr_injective ((String.append_right_inj "_t").mp name)
            exact .inl (congrArg temp number_eq)
        | player other => exact absurd ⟨number, .inl ⟨rfl, congrArg player name.symm⟩⟩ apart
        | global _ | team _ _ => exact absurd word (by simp [leftWord])
  · rintro (rfl | shadows | shadows)
    · exact ⟨rfl, rfl⟩
    · exact shadows.place_eq
    · exact shadows.place_eq.imp Eq.symm Eq.symm

/-! ## The two sides -/

theorem rightWord_eq_iff (first second : SlotKey) :
    first.rightWord = second.rightWord ↔ first.leftWord = second.leftWord := by
  cases first <;> cases second <;> simp [rightWord, leftWord]

/-- The words of a side are told apart by their first letters, so no word runs into the name behind it. -/
theorem left_eq_iff_place (first second : SlotKey) :
    first.left = second.left ↔
      first.leftWord = second.leftWord ∧ first.qualifiedName = second.qualifiedName := by
  constructor
  · intro same
    have head (key : SlotKey) : key.left.toList.head? = key.leftWord.toList.head? := by
      cases key <;> simp [left, leftWord]
    have letters : first.leftWord.toList.head? = second.leftWord.toList.head? := by
      rw [← head, ← head, same]
    have word : first.leftWord = second.leftWord := by
      cases first <;> cases second <;> first | rfl | exact absurd letters (by simp [leftWord])
    rw [left, left, word, String.append_right_inj] at same
    exact ⟨word, same⟩
  · rintro ⟨word, name⟩
    rw [left, left, word, name]

theorem right_eq_iff_place (first second : SlotKey) :
    first.right = second.right ↔
      first.leftWord = second.leftWord ∧ first.qualifiedName = second.qualifiedName := by
  rw [← rightWord_eq_iff]
  constructor
  · intro same
    have head (key : SlotKey) : key.right.toList[6]? = key.rightWord.toList.head? := by
      cases key <;> simp [right, rightWord]
    have letters : first.rightWord.toList.head? = second.rightWord.toList.head? := by
      rw [← head, ← head, same]
    have word : first.rightWord = second.rightWord := by
      cases first <;> cases second <;> first | rfl | exact absurd letters (by simp [rightWord])
    rw [right, right, word, String.append_left_inj, String.append_right_inj] at same
    exact ⟨word, same⟩
  · rintro ⟨word, name⟩
    rw [right, right, word, name]

/-! ## Names without spaces -/

/-- A key with a space in its name or in that of its team. -/
def Spaced (key : SlotKey) : Prop :=
  ∃ name ∈ key.names, ' ' ∈ name.toList

theorem Shadows.spaced (shadows : first.Shadows second) : first.Spaced ∧ second.Spaced := by
  cases shadows with
  | team name middle holder =>
      refine ⟨⟨middle ++ " " ++ holder, List.mem_cons_of_mem _ List.mem_cons_self, by simp⟩, ?_⟩
      exact ⟨name ++ " " ++ middle, List.mem_cons_self, by simp⟩

theorem Clashes.spaced (clashes : first.Clashes second) : first.Spaced ∧ second.Spaced :=
  clashes.elim Shadows.spaced fun shadows => shadows.spaced.symm

end SlotKey

/-- Slots that are no namesakes are told apart by both sides of a change, except that a team slot is written like
one whose name takes up the first words of its team. Then both have a space in their names. -/
theorem Slot.texts_eq_iff (first second : Slot) (apart : ¬ first.key.Namesakes second.key) :
    (first.left = second.left ↔ first.key = second.key ∨ first.key.Clashes second.key) ∧
      (first.right = second.right ↔ first.key = second.key ∨ first.key.Clashes second.key) ∧
      (first.key.Clashes second.key → first.key.Spaced ∧ second.key.Spaced) := by
  refine ⟨?_, ?_, SlotKey.Clashes.spaced⟩
  · exact (SlotKey.left_eq_iff_place first.key second.key).trans (SlotKey.place_eq_iff apart)
  · exact (SlotKey.right_eq_iff_place first.key second.key).trans (SlotKey.place_eq_iff apart)

/-- The first temp, and a stat of the player with the name of the second. -/
theorem Slot.texts_eq_iff_second_temp :
    ¬ (Temp.slot ⟨1, .any⟩).key.Namesakes (Slot.player "_t2").key ∧
      (Temp.slot ⟨1, .any⟩).left ≠ (Slot.player "_t2").left ∧
      (Temp.slot ⟨1, .any⟩).right ≠ (Slot.player "_t2").right := by
  have apart : ¬ (Temp.slot ⟨1, .any⟩).key.Namesakes (Slot.player "_t2").key := by
    rintro ⟨number, ⟨⟨⟩, name⟩ | ⟨⟨⟩, -⟩⟩
    exact absurd name (by decide)
  have differ : ¬ ((Temp.slot ⟨1, .any⟩).key = (Slot.player "_t2").key ∨
      (Temp.slot ⟨1, .any⟩).key.Clashes (Slot.player "_t2").key) := by
    rintro (⟨⟨⟩⟩ | shadows | shadows)
    · cases shadows
    · cases shadows
  obtain ⟨left, right, -⟩ := texts_eq_iff _ _ apart
  exact ⟨apart, fun same => differ (left.mp same), fun same => differ (right.mp same)⟩

/-- Two slots of different teams have the same texts. -/
theorem Slot.texts_of_different_slots :
    (Slot.team "kills" "dark red").key ≠ (Slot.team "kills dark" "red").key ∧
      (Slot.team "kills" "dark red").left = (Slot.team "kills dark" "red").left ∧
      (Slot.team "kills" "dark red").right = (Slot.team "kills dark" "red").right := by
  exact ⟨by decide, by decide, by decide⟩

end StatScript
