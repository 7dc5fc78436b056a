import StatScript.Text.Blank

/-!
# Words

The words of a text are the pieces between its blanks that are not empty. All that is said about words
follows from this and from one law: a blank between two texts separates their words.

Results:
1. `wordRuns_eq`: words are pieces between blanks.
2. `wordRuns_append_blank`: the law.
3. `words_append`, `words_unwords`: the same for texts, and words put on one line are read back.
-/

namespace StatScript.Text

/-! ## Words as pieces -/

theorem runs_cons (c : Char) (cs : List Char) : ∃ run rest, runs (c :: cs) = (c :: run) :: rest := by
  unfold runs
  split
  · split
    · exact ⟨_, _, rfl⟩
    · exact ⟨_, _, rfl⟩
  · exact ⟨_, _, rfl⟩

/-- The pieces of a text between blanks that are not empty. -/
def solidPieces (cs : List Char) : List (List Char) :=
  (cs.splitOnP isBlank).filter fun piece => !piece.isEmpty

theorem wordRuns_eq (cs : List Char) : wordRuns cs = solidPieces cs := by
  unfold wordRuns solidPieces
  induction cs with
  | nil => rfl
  | cons c cs ih =>
      rw [List.splitOnP_cons_eq_if_modifyHead]
      cases cs with
      | nil => cases blank : isBlank c <;> simp [runs, isWord, blank]
      | cons d cs =>
          obtain ⟨run, rest, same⟩ := runs_cons d cs
          rw [runs, same]
          rw [same, List.splitOnP_cons_eq_if_modifyHead] at ih
          rw [List.splitOnP_cons_eq_if_modifyHead]
          obtain ⟨piece, pieces, split⟩ := List.exists_cons_of_ne_nil (List.splitOnP_ne_nil isBlank cs)
          rw [split] at ih ⊢
          -- Two neighbours of the same class are in one run, and solid ones in one piece.
          cases first : isBlank c <;> cases second : isBlank d <;> simp_all [isWord]

theorem wordRuns_append_blank {c : Char} (blank : isBlank c) (first second : List Char) :
    wordRuns (first ++ c :: second) = wordRuns first ++ wordRuns second := by
  rw [wordRuns_eq, wordRuns_eq, wordRuns_eq, solidPieces, List.splitOnP_append_cons _ _ blank,
    List.filter_append]
  rfl

theorem wordRuns_solid {cs : List Char} (nonempty : cs ≠ [])
    (solid : ∀ c ∈ cs, isBlank c = false) : wordRuns cs = [cs] := by
  rw [wordRuns_eq, solidPieces, List.splitOnP_eq_singleton solid]
  simp [nonempty]

theorem solid_of_mem_wordRuns {cs word : List Char} (member : word ∈ wordRuns cs) :
    word ≠ [] ∧ ∀ c ∈ word, isBlank c = false := by
  rw [wordRuns_eq, solidPieces, List.mem_filter] at member
  refine ⟨by simpa using member.2, ?_⟩
  have piece := member.1
  clear member
  induction cs generalizing word with
  | nil => simp_all
  | cons c cs ih =>
      rw [List.splitOnP_cons_eq_if_modifyHead] at piece
      split at piece
      · rcases List.mem_cons.mp piece with rfl | piece
        · exact nofun
        · exact ih piece
      · next solid =>
          obtain ⟨first, further, same⟩ :=
            List.exists_cons_of_ne_nil (List.splitOnP_ne_nil isBlank cs)
          rw [same, List.modifyHead_cons] at piece
          rcases List.mem_cons.mp piece with rfl | piece
          · exact List.forall_mem_cons.mpr ⟨by simpa using solid, ih (same ▸ List.mem_cons_self)⟩
          · exact ih (same ▸ List.mem_cons_of_mem first piece)

/-- The first word begins where the text does. -/
theorem wordRuns_cons {c : Char} (solid : isBlank c = false) (cs : List Char) :
    ∃ word further, wordRuns (c :: cs) = (c :: word) :: further := by
  obtain ⟨run, rest, same⟩ := runs_cons c cs
  refine ⟨run, rest.filter isWord, ?_⟩
  rw [wordRuns, same, List.filter_cons_of_pos]
  simp [isWord, solid]

/-- Blanks in front of a text do not change its words. -/
theorem wordRuns_dropWhile (cs : List Char) : wordRuns (cs.dropWhile isBlank) = wordRuns cs := by
  induction cs with
  | nil => rfl
  | cons c cs ih =>
      by_cases blank : isBlank c
      · rw [List.dropWhile_cons_of_pos blank, ih]
        exact (wordRuns_append_blank blank [] cs).symm
      · rw [List.dropWhile_cons_of_neg blank]

/-! ## On strings -/

/-- A word: a text that is not empty and has no blanks. -/
def Solid (word : String) : Prop :=
  word ≠ "" ∧ ∀ c ∈ word.toList, isBlank c = false

instance (word : String) : Decidable (Solid word) :=
  decidable_of_iff (word ≠ "" ∧ word.toList.all fun c => !isBlank c) (by simp [Solid])

@[simp]
theorem words_append (first second : String) :
    words (first ++ " " ++ second) = words first ++ words second := by
  have space : " ".toList = [' '] := rfl
  simp only [words, String.toList_append, space, List.append_assoc, List.singleton_append]
  rw [wordRuns_append_blank rfl, List.map_append]

@[simp]
theorem words_solid {word : String} (solid : Solid word) : words word = [word] := by
  have nonempty : word.toList ≠ [] := by simpa using solid.1
  rw [words, wordRuns_solid nonempty solid.2]
  simp

theorem unwords_append {first second : List String} (left : first ≠ []) (right : second ≠ []) :
    unwords (first ++ second) = unwords first ++ " " ++ unwords second :=
  String.intercalate_append_of_ne_nil left right

theorem words_unwords {ws : List String} (solid : ∀ word ∈ ws, Solid word) :
    words (unwords ws) = ws := by
  induction ws with
  | nil => rfl
  | cons word rest ih =>
      obtain ⟨first, others⟩ := List.forall_mem_cons.mp solid
      cases rest with
      | nil =>
          rw [unwords, String.intercalate_singleton]
          exact words_solid first
      | cons next rest =>
          have split : unwords (word :: next :: rest) = word ++ " " ++ unwords (next :: rest) :=
            String.intercalate_cons_cons
          simp [split, first, ih others]

/-- A text that is its words, one space between neighbours, and has at least one. -/
def Phrase (text : String) : Prop :=
  ∃ ws, ws ≠ [] ∧ (∀ word ∈ ws, Solid word) ∧ text = unwords ws

theorem Phrase.unwords_words {text : String} (phrase : Phrase text) :
    unwords (words text) = text := by
  obtain ⟨ws, -, solid, rfl⟩ := phrase
  rw [words_unwords solid]

theorem Solid.phrase {word : String} (solid : Solid word) : Phrase word :=
  ⟨[word], nofun, List.forall_mem_singleton.mpr solid, String.intercalate_singleton.symm⟩

theorem Phrase.append {first second : String} (left : Phrase first) (right : Phrase second) :
    Phrase (first ++ " " ++ second) := by
  obtain ⟨leftWords, leftNonempty, leftSolid, rfl⟩ := left
  obtain ⟨rightWords, rightNonempty, rightSolid, rfl⟩ := right
  refine ⟨leftWords ++ rightWords, by simp [leftNonempty], ?_, ?_⟩
  · exact List.forall_mem_append.mpr ⟨leftSolid, rightSolid⟩
  · rw [unwords_append leftNonempty rightNonempty]

theorem Solid.append {first second : String} (left : Solid first) (right : Solid second) :
    Solid (first ++ second) := by
  refine ⟨?_, ?_⟩
  · intro empty
    exact left.1 (String.append_eq_empty_iff.mp empty).1
  · rw [String.toList_append]
    exact List.forall_mem_append.mpr ⟨left.2, right.2⟩

/-- A text with no blank at either end, and not empty. -/
def Edged (text : String) : Prop :=
  (∃ c, text.toList.head? = some c ∧ isBlank c = false) ∧
    ∃ c, text.toList.getLast? = some c ∧ isBlank c = false

theorem Edged.append {first second : String} (left : Edged first) (middle : String)
    (right : Edged second) : Edged (first ++ middle ++ second) := by
  obtain ⟨⟨c, head, solid⟩, -⟩ := left
  obtain ⟨-, d, last, solid'⟩ := right
  refine ⟨⟨c, ?_, solid⟩, d, ?_, solid'⟩
  · rw [String.toList_append, String.toList_append, List.append_assoc, List.head?_append, head]
    rfl
  · rw [String.toList_append, List.getLast?_append, last]
    rfl

theorem Solid.edged {word : String} (solid : Solid word) : Edged word := by
  have nonempty : word.toList ≠ [] := by simpa using solid.1
  exact ⟨⟨_, List.head?_eq_some_head nonempty, solid.2 _ (List.head_mem nonempty)⟩,
    _, List.getLast?_eq_some_getLast nonempty, solid.2 _ (List.getLast_mem nonempty)⟩

theorem edged_intercalate {texts : List String} (separator : String) (nonempty : texts ≠ [])
    (edged : ∀ text ∈ texts, Edged text) : Edged (separator.intercalate texts) := by
  induction texts with
  | nil => exact absurd rfl nonempty
  | cons text rest ih =>
      obtain ⟨first, others⟩ := List.forall_mem_cons.mp edged
      cases rest with
      | nil =>
          rw [String.intercalate_singleton]
          exact first
      | cons next rest =>
          rw [String.intercalate_cons_cons]
          exact first.append separator (ih nofun others)

theorem Phrase.edged {text : String} (phrase : Phrase text) : Edged text := by
  obtain ⟨ws, nonempty, solid, rfl⟩ := phrase
  exact edged_intercalate " " nonempty fun word member => (solid word member).edged

theorem solid_of_mem_words {text word : String} (member : word ∈ words text) : Solid word := by
  obtain ⟨run, listed, rfl⟩ := List.mem_map.mp member
  obtain ⟨nonempty, solid⟩ := solid_of_mem_wordRuns listed
  exact ⟨by simpa using nonempty, by simpa using solid⟩

theorem words_head {text : String} {c : Char} {cs : List Char} (text_eq : text.toList = c :: cs)
    (solid : isBlank c = false) :
    ∃ word further, words text = String.ofList (c :: word) :: further := by
  obtain ⟨word, further, same⟩ := wordRuns_cons solid cs
  exact ⟨word, further.map String.ofList, by rw [words, text_eq, same, List.map_cons]⟩

end StatScript.Text
