import Mathlib.Data.List.TakeWhile
import StatScript.Proofs.Machine.Cells

/-!
# Temps in the text of a line

The target sees a temp only by its name, `_t` and a number, which may stand on either side of a change. A
text names a temp wherever an underscore is followed by a `t`, and the number goes as far as there are
digits. No name goes beyond a character that cannot be part of one, so a text is searched piece by piece.

Results:
1. `tempsIn_append`: the law of the search.
2. `tempsIn_left`, `tempsIn_right`: a key names what its names name, and a temp names itself.
3. `tempsIn_text`: a change names the temps of its target and of its value.
-/

namespace StatScript

open Text

/-! ## The search -/

/-- The names of temps in a text, in order, each with all the digits behind it. -/
def tempNames : List Char → List (List Char)
  | [] => []
  | '_' :: 't' :: rest => ('_' :: 't' :: rest.takeWhile Char.isDigit) :: tempNames rest
  | _ :: rest => tempNames rest

/-- The names of temps in a text, in order. -/
def tempsIn (text : String) : List String :=
  (tempNames text.toList).map String.ofList

/-- A text that names no temp, not even in part. -/
def Untemped (text : String) : Prop :=
  ¬"_t".toList <:+: text.toList

/-- A character that is in no name of a temp. -/
def breaksName (c : Char) : Bool :=
  c ≠ '_' && c ≠ 't' && !c.isDigit

theorem tempNames_cons {c : Char} {rest : List Char} (other : c ≠ '_' ∨ rest.head? ≠ some 't') :
    tempNames (c :: rest) = tempNames rest := by
  rw [tempNames]
  rintro tail rfl rfl
  exact other.elim (absurd rfl) (absurd rfl)

theorem takeWhile_append_stop {p : Char → Bool} {c : Char} (stop : p c = false) (first second : List Char) :
    (first ++ c :: second).takeWhile p = first.takeWhile p := by
  induction first with
  | nil => exact List.takeWhile_cons_of_neg (by simp [stop])
  | cons d first ih =>
      rw [List.cons_append, List.takeWhile_cons, List.takeWhile_cons, ih]

/-- A character that is in no name separates the names before it from those behind. -/
theorem tempNames_append {c : Char} (breaks : breaksName c) (first second : List Char) :
    tempNames (first ++ c :: second) = tempNames first ++ tempNames second := by
  obtain ⟨⟨underscore, letter⟩, digit⟩ : (c ≠ '_' ∧ c ≠ 't') ∧ c.isDigit = false := by
    simpa [breaksName] using breaks
  fun_induction tempNames first with
  | case1 => exact tempNames_cons (.inl underscore)
  | case2 rest ih =>
      rw [List.cons_append, List.cons_append, tempNames, takeWhile_append_stop digit, ih]
      rfl
  | case3 d rest other ih =>
      rw [List.cons_append, tempNames_cons, ih]
      by_cases first : d = '_'
      · refine .inr ?_
        cases rest with
        | nil => simpa using letter
        | cons e rest => simpa using other rest first
      · exact .inl first

theorem tempNames_eq_nil_iff (cs : List Char) : tempNames cs = [] ↔ ¬['_', 't'] <:+: cs := by
  fun_induction tempNames cs with
  | case1 => simp
  | case2 rest _ =>
      refine iff_of_false (List.cons_ne_nil _ _) (not_not_intro ?_)
      exact (List.prefix_append ['_', 't'] rest).isInfix
  | case3 c rest other ih =>
      have start : ¬['_', 't'] <+: c :: rest := by
        rintro ⟨tail, same⟩
        obtain ⟨rfl, rfl⟩ := List.cons.inj same
        exact other tail rfl rfl
      rw [ih, List.infix_cons_iff, not_or, and_iff_right start]

instance (text : String) : Decidable (Untemped text) :=
  decidable_of_iff _ (tempNames_eq_nil_iff text.toList)

theorem tempsIn_append {c : Char} (breaks : breaksName c) (first second : String) :
    tempsIn (first ++ String.singleton c ++ second) = tempsIn first ++ tempsIn second := by
  have mark : (first ++ String.singleton c ++ second).toList = first.toList ++ c :: second.toList := by
    simp
  rw [tempsIn, mark, tempNames_append breaks, List.map_append]
  rfl

theorem Untemped.tempsIn {text : String} (free : Untemped text) : tempsIn text = [] := by
  rw [StatScript.tempsIn, (tempNames_eq_nil_iff _).mpr free, List.map_nil]

/-- A numeral names no temp. -/
theorem untemped_repr (value : Int) : Untemped value.repr := by
  intro inner
  rcases repr_chars value '_' (inner.subset List.mem_cons_self) with digit | sign
  · cases digit
  · cases sign

theorem tempsIn_temp (number : Nat) :
    tempsIn (SlotKey.temp number).name = [(SlotKey.temp number).name] := by
  have digits : number.repr.toList.takeWhile Char.isDigit = number.repr.toList :=
    List.takeWhile_eq_self_iff.mpr fun c => isDigit_of_mem_repr
  have free : tempNames number.repr.toList = [] :=
    (tempNames_eq_nil_iff _).mpr (untemped_repr number)
  have name : (SlotKey.temp number).name.toList = '_' :: 't' :: number.repr.toList := by
    rw [SlotKey.name, String.toList_append]
    rfl
  rw [tempsIn, name, tempNames, digits, free, ← name, List.map_singleton, String.ofList_toList]

theorem SlotKey.temp_name_injective {number other : Nat}
    (same : (SlotKey.temp number).name = (SlotKey.temp other).name) : number = other :=
  Nat.repr_injective ((String.append_right_inj "_t").mp same)

/-! ## Keys, operands and changes -/

/-- A key with names of its own, none of which names a temp. -/
def SlotKey.Plain (key : SlotKey) : Prop :=
  ∀ name ∈ key.names, Untemped name

instance (key : SlotKey) : Decidable key.Plain :=
  inferInstanceAs (Decidable (∀ name ∈ key.names, _))

theorem tempsIn_qualifiedName (key : SlotKey) : tempsIn key.qualifiedName = key.names.flatMap tempsIn := by
  cases key with
  | team name holder =>
      show tempsIn (name ++ String.singleton ' ' ++ holder) = _
      rw [tempsIn_append rfl]
      simp [SlotKey.names]
  | player name | global name => exact (List.append_nil _).symm
  | temp number => exact (List.append_nil _).symm

theorem tempsIn_left (key : SlotKey) : tempsIn key.left = key.names.flatMap tempsIn := by
  have word : tempsIn key.leftWord = [] := by
    refine Untemped.tempsIn ?_
    cases key with
    | player _ | temp _ => exact (by decide : Untemped "stat")
    | global _ => exact (by decide : Untemped "globalstat")
    | team _ _ => exact (by decide : Untemped "teamstat")
  show tempsIn (key.leftWord ++ String.singleton ' ' ++ key.qualifiedName) = _
  rw [tempsIn_append rfl, word, tempsIn_qualifiedName, List.nil_append]

theorem tempsIn_right (key : SlotKey) : tempsIn key.right = key.names.flatMap tempsIn := by
  have word : tempsIn ("%stat." ++ key.rightWord) = [] := by
    refine Untemped.tempsIn ?_
    cases key with
    | player _ | temp _ => exact (by decide : Untemped ("%stat." ++ "player"))
    | global _ => exact (by decide : Untemped ("%stat." ++ "global"))
    | team _ _ => exact (by decide : Untemped ("%stat." ++ "team"))
  have nothing : tempsIn "" = [] := rfl
  have text : key.right = "%stat." ++ key.rightWord ++ String.singleton '/' ++ key.qualifiedName ++
      String.singleton '%' ++ "" := by
    rw [String.append_empty]
    rfl
  rw [text, tempsIn_append rfl, tempsIn_append rfl, word, tempsIn_qualifiedName, nothing,
    List.nil_append, List.append_nil]

theorem SlotKey.Plain.tempsIn {key : SlotKey} (plain : key.Plain) : key.names.flatMap tempsIn = [] :=
  List.flatMap_eq_nil_iff.mpr fun name member => (plain name member).tempsIn

theorem SlotKey.names_temp (number : Nat) :
    (temp number).names.flatMap tempsIn = [(temp number).name] :=
  (List.append_nil _).trans (tempsIn_temp number)

theorem SlotKey.not_plain_temp (number : Nat) : ¬(temp number).Plain := by
  intro plain
  have names := plain.tempsIn
  rw [names_temp] at names
  cases names

/-- An operand that was not returned by any operation: a literal, a placeholder or a slot whose texts name no
temp. -/
def Operand.Plain : Operand → Prop
  | slot cell => cell.key.Plain
  | literal value => Untemped value.right
  | computed _ _ => False
  | placeholder text _ => Untemped text

instance : DecidablePred Operand.Plain
  | .slot cell => inferInstanceAs (Decidable cell.key.Plain)
  | .literal value => inferInstanceAs (Decidable (Untemped value.right))
  | .computed _ _ => inferInstanceAs (Decidable False)
  | .placeholder text _ => inferInstanceAs (Decidable (Untemped text))

theorem Operand.plain_long (value : Int64) : (ofLong value).Plain :=
  untemped_repr value.toInt

theorem Operand.Plain.tempsIn {operand : Operand} (plain : operand.Plain) : tempsIn operand.right = [] := by
  cases operand with
  | slot cell => exact (tempsIn_right cell.key).trans (SlotKey.Plain.tempsIn plain)
  | literal value => exact Untemped.tempsIn plain
  | computed temp chain => exact plain.elim
  | placeholder text type => exact Untemped.tempsIn plain

/-- An operand that is held in a slot is read from it. -/
theorem Operand.right_of_slot? {operand : Operand} {cell : Slot} (held : operand.slot? = some cell) :
    operand.right = cell.right := by
  cases operand with
  | slot other => exact congrArg Slot.right (Option.some.inj held)
  | computed temp chain => exact congrArg Slot.right (Option.some.inj held)
  | literal value => cases held
  | placeholder text type => cases held

theorem untemped_word (mode : Mode) : Untemped mode.word := by
  cases mode with
  | set => decide
  | combine op => cases op <;> decide

/-- A change names the temps of its target and of its value. -/
theorem Change.tempsIn_text (change : Change) :
    tempsIn change.text = change.target.key.names.flatMap tempsIn ++ tempsIn change.value.right := by
  show tempsIn (change.target.left ++ String.singleton ' ' ++ change.mode.word ++ String.singleton ' ' ++
    change.value.right) = _
  rw [tempsIn_append rfl, tempsIn_append rfl, Slot.left, tempsIn_left, (untemped_word _).tempsIn,
    List.append_nil]

end StatScript
