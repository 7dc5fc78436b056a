import StatScript.Lowering.Assignment
import StatScript.Proofs.Machine.Cells
import StatScript.Script

/-!
# Reading lines

The machine reads the text of a change or a condition word by word. A text made from sound keys is read
as what it was made from.

Results:
1. `perform_text`: a change does to its cell what its mode says.
2. `Test.holds_text`: a condition compares its cell with its value.
3. `enters_openingLine`: a conditional is entered if all of its conditions hold, or if any does.
-/

namespace StatScript

open Text

/-! ## Words -/

theorem cutAtWord?_append {α : Type} {read : String → Option α} {before : List String}
    {word : String} {found : α} (unread : ∀ word ∈ before, read word = none)
    (reads : read word = some found) (behind : List String) :
    cutAtWord? read (before ++ word :: behind) = some (before, found, behind) := by
  induction before with
  | nil => simp [cutAtWord?, reads]
  | cons first rest ih =>
      obtain ⟨none, others⟩ := List.forall_mem_cons.mp unread
      simp [cutAtWord?, none, ih others]

@[simp]
theorem Mode.ofWord?_word (mode : Mode) : ofWord? mode.word = some mode := by
  cases mode with
  | set => rfl
  | combine op => cases op <;> rfl

@[simp]
theorem Comparison.ofSymbol?_symbol (comparison : Comparison) :
    ofSymbol? comparison.symbol = some comparison := by
  cases comparison <;> rfl

theorem Mode.solid_word (mode : Mode) : Solid mode.word := by
  cases mode with
  | set => exact (by decide : Solid "set")
  | combine op => cases op <;> decide

theorem Comparison.solid_symbol (comparison : Comparison) : Solid comparison.symbol := by
  cases comparison <;> decide

/-- A phrase, a word and a phrase are read apart at the word. -/
theorem cutAtWord?_phrases {α : Type} {read : String → Option α} {first word : String} {found : α}
    (unread : ∀ word ∈ words first, read word = none) (solid : Solid word)
    (reads : read word = some found) (second : String) :
    cutAtWord? read (words (first ++ " " ++ word ++ " " ++ second)) =
      some (words first, found, words second) := by
  rw [words_append, words_append, words_solid solid, List.append_assoc]
  exact cutAtWord?_append unread reads (words second)

/-! ## Operands -/

namespace Operand

/-- An operand that the machine can read: a sound slot, a temp or a whole number. -/
def Readable : Operand → Prop
  | slot cell => cell.key.Sound
  | computed _ _ => True
  | literal (.long _) => True
  | _ => False

/-- A slot with such a key, a temp or a whole number. -/
def Keyed (holds : SlotKey → Prop) : Operand → Prop
  | slot cell => holds cell.key
  | computed _ _ => True
  | literal (.long _) => True
  | _ => False

/-- An operand that names its cell legibly, or a whole number. -/
def Legible (operand : Operand) : Prop :=
  operand.Keyed SlotKey.Legible

theorem Keyed.mono {first second : SlotKey → Prop} {operand : Operand} (keyed : operand.Keyed first)
    (implies : ∀ cell, operand.slot? = some cell → first cell.key → second cell.key) :
    operand.Keyed second := by
  cases operand with
  | slot cell => exact implies cell rfl keyed
  | computed temp chain => trivial
  | literal value =>
      cases value with
      | long value => trivial
      | double value => cases keyed
      | text value => cases keyed
  | placeholder text type => cases keyed

theorem Readable.keyed {operand : Operand} (readable : operand.Readable) : operand.Keyed SlotKey.Sound :=
  readable

theorem Readable.legible {operand : Operand} (readable : operand.Readable) : operand.Legible :=
  readable.keyed.mono fun _ _ => SlotKey.Sound.legible

/-- The number that a legible operand stands for. -/
def read (store : Store) : Operand → Int64
  | slot cell => store.get cell.left
  | computed temp _ => store.get temp.slot.left
  | literal (.long value) => value
  | _ => 0

theorem resolve_key {key : SlotKey} (legible : key.Legible) (store : Store) :
    store.resolve key.right = .ok (store.get key.left) := by
  have numeral : Text.long? key.right = none :=
    long?_eq_none (key.right_toList.trans (List.cons_append ..)) rfl nofun nofun
  simp only [Store.resolve, numeral, SlotKey.cellOfRight?_right legible]

/-- The machine reads an operand as the number that it stands for. -/
theorem Legible.resolve_right {operand : Operand} (legible : operand.Legible) (store : Store) :
    store.resolve operand.right = .ok (operand.read store) := by
  cases operand with
  | slot cell => exact resolve_key legible store
  | computed temp chain => exact resolve_key (SlotKey.sound_temp temp.number).legible store
  | literal value =>
      cases value with
      | long value => simp only [Store.resolve, right, Literal.right, long?_repr, read]
      | double value => cases legible
      | text value => cases legible
  | placeholder text type => cases legible

theorem resolve_right {operand : Operand} (readable : operand.Readable) (store : Store) :
    store.resolve operand.right = .ok (operand.read store) :=
  readable.legible.resolve_right store

theorem phrase_right {operand : Operand} (legible : operand.Legible) : Phrase operand.right := by
  cases operand with
  | slot cell => exact SlotKey.phrase_right legible
  | computed temp chain => exact SlotKey.phrase_right (SlotKey.sound_temp temp.number).legible
  | literal value =>
      cases value with
      | long value => exact (solid_repr value.toInt).phrase
      | double value => cases legible
      | text value => cases legible
  | placeholder text type => cases legible

end Operand

/-! ## Changes -/

/-- A change with texts that the machine reads. -/
structure Change.Readable (change : Change) : Prop where
  target : change.target.key.Sound
  value : change.value.Readable

/-- A change does to its cell what its mode says. -/
theorem perform_text {change : Change} (readable : change.Readable) (store : Store) :
    store.perform change.text =
      (Store.outcome change.mode (store.get change.target.left) (change.value.read store)).map
        (store.set change.target.left) := by
  have unread : ∀ word ∈ words change.target.left, Mode.ofWord? word = none :=
    SlotKey.no_mode_left readable.target
  have target : unwords (words change.target.left) = change.target.left :=
    (SlotKey.phrase_left readable.target.legible).unwords_words
  unfold Store.perform Change.text
  rw [cutAtWord?_phrases unread change.mode.solid_word change.mode.ofWord?_word]
  simp only [(Operand.phrase_right readable.value.legible).unwords_words, target,
    Operand.resolve_right readable.value]
  show (Store.outcome change.mode (store.get change.target.left) (change.value.read store) >>=
    fun next => pure (store.set change.target.left next)) = _
  cases Store.outcome change.mode (store.get change.target.left) (change.value.read store) with
  | error fault => rfl
  | ok next => rfl

/-! ## Conditions -/

namespace SlotKey

/-- A legible key that can stand in a condition. There it need not differ from the modes of changes. -/
structure Citable (key : SlotKey) : Prop extends key.Legible where
  symbols : ∀ name ∈ key.names, Comparison.ofSymbol? name = none
  commas : ∀ name ∈ key.names, ',' ∉ name.toList

instance (key : SlotKey) : Decidable key.Citable :=
  decidable_of_iff
    (∀ name ∈ key.names, Solid name ∧ '%' ∉ name.toList ∧ Comparison.ofSymbol? name = none ∧
      ',' ∉ name.toList)
    ⟨fun names =>
      { solid := fun name member => (names name member).1
        percent := fun name member => (names name member).2.1
        symbols := fun name member => (names name member).2.2.1
        commas := fun name member => (names name member).2.2.2 },
    fun citable name member => ⟨citable.solid name member, citable.percent name member,
      citable.symbols name member, citable.commas name member⟩⟩

/-- A sound key that can also stand in a condition. -/
structure Testable (key : SlotKey) : Prop extends key.Sound where
  symbols : ∀ name ∈ key.names, Comparison.ofSymbol? name = none
  commas : ∀ name ∈ key.names, ',' ∉ name.toList

/-- A testable key that is no temp. -/
structure Ordinary (key : SlotKey) : Prop extends key.Testable where
  lasting : key.isTemp = false

instance (key : SlotKey) : Decidable key.Ordinary :=
  decidable_of_iff
    ((key.isTemp = false ∧ key.likeTemp = false) ∧ ∀ name ∈ key.names,
      Nameable name ∧ Comparison.ofSymbol? name = none ∧ ',' ∉ name.toList)
    ⟨fun ⟨⟨lasting, apart⟩, names⟩ =>
      { names := fun name member => (names name member).1
        apart
        symbols := fun name member => (names name member).2.1
        commas := fun name member => (names name member).2.2
        lasting },
    fun ordinary => ⟨⟨ordinary.lasting, ordinary.apart⟩, fun name member =>
      ⟨ordinary.names name member, ordinary.symbols name member, ordinary.commas name member⟩⟩⟩

theorem Testable.citable {key : SlotKey} (testable : key.Testable) : key.Citable :=
  ⟨testable.legible, testable.symbols, testable.commas⟩

theorem testable_temp (number : Nat) : (temp number).Testable := by
  refine ⟨sound_temp number, List.forall_mem_singleton.mpr ?_, List.forall_mem_singleton.mpr ?_⟩
  · unfold Comparison.ofSymbol?
    rw [List.find?_eq_none]
    intro comparison _ same
    have first : comparison.symbol.toList.head? = some '_' := by
      rw [of_decide_eq_true same, name, String.toList_append]
      rfl
    revert first
    cases comparison <;> decide
  · intro comma
    rcases chars_temp number ',' comma with other | other | digit
    · cases other
    · cases other
    · cases digit

theorem no_symbol_left {key : SlotKey} (citable : key.Citable) :
    ∀ word ∈ words key.left, Comparison.ofSymbol? word = none := by
  rw [words_left citable.toLegible]
  refine List.forall_mem_cons.mpr ⟨?_, citable.symbols⟩
  cases key <;> rfl

theorem comma_qualifiedName {key : SlotKey} (citable : key.Citable) :
    ',' ∉ key.qualifiedName.toList := by
  cases key with
  | team name holder =>
      have first := citable.commas name List.mem_cons_self
      have second := citable.commas holder (List.mem_cons_of_mem _ List.mem_cons_self)
      have text : (team name holder).qualifiedName = name ++ " " ++ holder := rfl
      rw [text, String.toList_append, String.toList_append]
      simpa using ⟨first, second⟩
  | player _ | global _ | temp _ => exact citable.commas _ List.mem_cons_self

theorem comma_left {key : SlotKey} (citable : key.Citable) : ',' ∉ key.left.toList := by
  have name := comma_qualifiedName citable
  rw [left, String.toList_append, String.toList_append]
  cases key <;> simpa [leftWord] using name

theorem comma_right {key : SlotKey} (citable : key.Citable) : ',' ∉ key.right.toList := by
  have name := comma_qualifiedName citable
  rw [right, String.toList_append, String.toList_append, String.toList_append, String.toList_append]
  cases key <;> simpa [rightWord] using name

end SlotKey

/-- An operand that can stand in a condition. -/
def Operand.Testable (operand : Operand) : Prop :=
  ∀ cell, operand.slot? = some cell → cell.key.Testable

namespace Operand

/-- A cell that can be cited, or a whole number. -/
def Citable (operand : Operand) : Prop :=
  operand.Keyed SlotKey.Citable

section Citable

variable {operand : Operand}

theorem Readable.citable (readable : operand.Readable) (testable : operand.Testable) :
    operand.Citable :=
  readable.keyed.mono fun cell holder _ => (testable cell holder).citable

theorem Citable.legible (citable : operand.Citable) : operand.Legible :=
  citable.mono fun _ _ => SlotKey.Citable.toLegible

theorem Citable.key {cell : Slot} (citable : operand.Citable) (holder : operand.slot? = some cell) :
    cell.key.Citable := by
  cases operand with
  | slot cell => cases holder; exact citable
  | computed temp chain => cases holder; exact (SlotKey.testable_temp temp.number).citable
  | literal value => cases holder
  | placeholder text type => cases holder

theorem Citable.comma_right (citable : operand.Citable) : ',' ∉ operand.right.toList := by
  cases operand with
  | slot cell => exact SlotKey.comma_right citable
  | computed temp chain => exact SlotKey.comma_right (SlotKey.testable_temp temp.number).citable
  | literal value =>
      cases value with
      | long value =>
          intro comma
          rcases repr_chars value.toInt ',' comma with digit | sign
          · cases digit
          · cases sign
      | double value => cases citable
      | text value => cases citable
  | placeholder text type => cases citable

end Citable

end Operand

/-- A comparison of a cell with an operand. -/
structure Test where
  subject : SlotKey
  comparison : Comparison
  value : Operand

namespace Test

/-- The condition in words: the subject, the comparison and the value. -/
def text (test : Test) : String :=
  test.subject.left ++ " " ++ test.comparison.symbol ++ " " ++ test.value.right

/-- Whether the comparison holds. -/
def holds (store : Store) (test : Test) : Bool :=
  test.comparison.holds (store.get test.subject.left) (test.value.read store)

/-- A test with a text that the machine reads. -/
structure Citable (test : Test) : Prop where
  subject : test.subject.Citable
  value : test.value.Citable

/-- A condition compares its cell with its value. -/
theorem holds_text {test : Test} (citable : test.Citable) (store : Store) :
    store.holds test.text = .ok (test.holds store) := by
  have unread := SlotKey.no_symbol_left citable.subject
  have subject : unwords (words test.subject.left) = test.subject.left :=
    (SlotKey.phrase_left citable.subject.toLegible).unwords_words
  unfold Store.holds text
  rw [cutAtWord?_phrases unread test.comparison.solid_symbol test.comparison.ofSymbol?_symbol]
  simp only [(Operand.phrase_right citable.value.legible).unwords_words, subject,
    citable.value.legible.resolve_right]
  rfl

theorem holdsAll_texts {tests : List Test} (citable : ∀ test ∈ tests, test.Citable)
    (store : Store) : store.holdsAll (tests.map text) = .ok (tests.all (holds store)) := by
  induction tests with
  | nil => rfl
  | cons test rest ih =>
      obtain ⟨first, others⟩ := List.forall_mem_cons.mp citable
      rw [List.map_cons, Store.holdsAll, holds_text first, List.all_cons, ih others]
      cases test.holds store <;> rfl

theorem holdsAny_texts {tests : List Test} (citable : ∀ test ∈ tests, test.Citable)
    (store : Store) : store.holdsAny (tests.map text) = .ok (tests.any (holds store)) := by
  induction tests with
  | nil => rfl
  | cons test rest ih =>
      obtain ⟨first, others⟩ := List.forall_mem_cons.mp citable
      rw [List.map_cons, Store.holdsAny, holds_text first, List.any_cons, ih others]
      cases test.holds store <;> rfl

theorem edged_text {test : Test} (citable : test.Citable) : Edged test.text := by
  have subject := SlotKey.phrase_left citable.subject.toLegible
  have parts := subject.append test.comparison.solid_symbol.phrase
  exact (parts.append (Operand.phrase_right citable.value.legible)).edged

theorem comma_text {test : Test} (citable : test.Citable) : ',' ∉ test.text.toList := by
  have subject := SlotKey.comma_left citable.subject
  have symbol : ',' ∉ test.comparison.symbol.toList := by
    cases test.comparison <;> decide
  rw [text, String.toList_append, String.toList_append, String.toList_append, String.toList_append]
  simpa using ⟨subject, symbol, citable.value.comma_right⟩

end Test

/-! ## Conditionals -/

/-- The text in the brackets of a line that opens a conditional. -/
theorem bracketed_openingLine (all : Bool) (conditions : List Condition) :
    bracketed (Script.openingLine all conditions).text =
      dropEnds isBlank (", ".intercalate (conditions.map Condition.text)).toList := by
  obtain ⟨lead, free, lead_eq⟩ : ∃ lead : List Char, '(' ∉ lead ∧
      (if all then "if and (" else "if or (").toList = lead ++ ['('] := by
    cases all with
    | true => exact ⟨"if and ".toList, by decide, rfl⟩
    | false => exact ⟨"if or ".toList, by decide, rfl⟩
  have text : (Script.openingLine all conditions).text.toList =
      lead ++ '(' :: ((", ".intercalate (conditions.map Condition.text)).toList ++
        ')' :: [' ', '\x7b']) := by
    simp only [Script.openingLine, String.toList_append, lead_eq, List.append_assoc]
    rfl
  have tail : ')' ∉ [' ', '\x7b'] := by decide
  simp only [bracketed, text, cutFirst?_append free, cutLast?_append _ tail]

theorem conditionsOf_openingLine {all : Bool} {conditions : List Condition} {tests : List Test}
    (texts : conditions.map Condition.text = tests.map Test.text)
    (citable : ∀ test ∈ tests, test.Citable) :
    conditionsOf (Script.openingLine all conditions).text = tests.map Test.text := by
  have inner := bracketed_openingLine all conditions
  rw [texts] at inner
  cases tests with
  | nil =>
      unfold conditionsOf
      rw [inner]
      rfl
  | cons test rest =>
      have nonempty : (test :: rest).map Test.text ≠ [] := nofun
      have edged : Edged (", ".intercalate ((test :: rest).map Test.text)) :=
        edged_intercalate _ nonempty (List.forall_mem_map.mpr fun _ member =>
          Test.edged_text (citable _ member))
      rw [trim_eq_self edged] at inner
      have items := listItems_intercalate nonempty (List.forall_mem_map.mpr fun _ member =>
        Test.comma_text (citable _ member))
      unfold conditionsOf
      split
      · next empty =>
          obtain ⟨⟨c, head, -⟩, -⟩ := edged
          rw [← inner, empty] at head
          cases head
      · rw [inner, items]

/-- A conditional is entered if all of its conditions hold, or if any does, and always if it has
none. -/
theorem enters_openingLine {all : Bool} {conditions : List Condition} {tests : List Test}
    (texts : conditions.map Condition.text = tests.map Test.text)
    (citable : ∀ test ∈ tests, test.Citable) (store : Store) :
    store.enters (Script.openingLine all conditions).text all =
      .ok (tests.isEmpty ||
        if all then tests.all (Test.holds store) else tests.any (Test.holds store)) := by
  unfold Store.enters
  rw [conditionsOf_openingLine texts citable]
  cases tests with
  | nil => rfl
  | cons test rest =>
      show (if all then store.holdsAll ((test :: rest).map Test.text)
        else store.holdsAny ((test :: rest).map Test.text)) = _
      rw [Test.holdsAll_texts citable, Test.holdsAny_texts citable]
      cases all <;> rfl

end StatScript
