import Mathlib
import StatScript.Machine
import StatScript.Proofs.Text.Cut
import StatScript.Proofs.Text.Numeral

/-!
# Cells by their texts

The machine knows a slot only by the texts of its key. A name that is one word without a percent sign can be
read back from both of them. The target of a change is cut off at the mode, so there a name may be no mode
either.

Results:
1. `words_left`: the left side of a key is its scope and its names, one word each.
2. `cellOfRight?_right`: the right side of a key names the cell of its left side.
3. `left_injective`: different keys are in different cells.
-/

namespace StatScript

open Text

/-- A name that can stand in a change. -/
structure Nameable (name : String) : Prop where
  solid : Solid name
  percent : '%' ∉ name.toList
  mode : Mode.ofWord? name = none

instance (name : String) : Decidable (Nameable name) :=
  decidable_of_iff (Solid name ∧ '%' ∉ name.toList ∧ Mode.ofWord? name = none)
    ⟨fun ⟨solid, percent, mode⟩ => ⟨solid, percent, mode⟩,
      fun ⟨solid, percent, mode⟩ => ⟨solid, percent, mode⟩⟩

namespace SlotKey

/-- The names in the texts of a key, in order. -/
def names : SlotKey → List String
  | team name holder => [name, holder]
  | key => [key.name]

/-- A key with names that can be read back from its texts. -/
structure Legible (key : SlotKey) : Prop where
  solid : ∀ name ∈ key.names, Solid name
  percent : ∀ name ∈ key.names, '%' ∉ name.toList

/-- A stat of the player that is named like a temp. -/
def likeTemp : SlotKey → Bool
  | player name => beginsWith "_t" name
  | _ => false

/-- A key whose texts the machine reads as this key. -/
structure Sound (key : SlotKey) : Prop where
  names : ∀ name ∈ key.names, Nameable name
  apart : key.likeTemp = false

theorem Sound.legible {key : SlotKey} (sound : key.Sound) : key.Legible :=
  ⟨fun name member => (sound.names name member).solid,
    fun name member => (sound.names name member).percent⟩

/-- No mode begins with an underscore. -/
theorem not_mode_of_underscore {word : String} (head : word.toList.head? = some '_') :
    Mode.ofWord? word = none := by
  unfold Mode.ofWord?
  rw [List.find?_eq_none]
  intro mode _ same
  have first : mode.word.toList.head? = some '_' := by rw [of_decide_eq_true same, head]
  revert first
  cases mode with
  | set => decide
  | combine op => cases op <;> decide

theorem chars_temp (number : Nat) :
    ∀ c ∈ ("_t" ++ number.repr).toList, c = '_' ∨ c = 't' ∨ c.isDigit := by
  intro c member
  have lead : "_t".toList = ['_', 't'] := rfl
  rw [String.toList_append, lead] at member
  simp only [List.cons_append, List.nil_append, List.mem_cons] at member
  exact member.imp_right fun rest => rest.imp_right isDigit_of_mem_repr

theorem nameable_temp (number : Nat) : Nameable ("_t" ++ number.repr) := by
  refine ⟨⟨?_, ?_⟩, ?_, ?_⟩
  · simp
  · intro c member
    rcases chars_temp number c member with rfl | rfl | digit
    · rfl
    · rfl
    · exact isBlank_of_isDigit digit
  · intro member
    rcases chars_temp number '%' member with other | other | digit
    · cases other
    · cases other
    · cases digit
  · exact not_mode_of_underscore (by rw [String.toList_append]; rfl)

theorem sound_temp (number : Nat) : (temp number).Sound :=
  ⟨List.forall_mem_singleton.mpr (nameable_temp number), rfl⟩

/-! ## Left sides -/

section Left

variable {key other : SlotKey}

theorem qualifiedName_eq (key : SlotKey) : key.qualifiedName = unwords key.names := by
  cases key with
  | team name holder =>
      show name ++ " " ++ holder = " ".intercalate [name, holder]
      rw [String.intercalate_cons_cons, String.intercalate_singleton]
  | player name | global name => exact String.intercalate_singleton.symm
  | temp number => exact String.intercalate_singleton.symm

theorem solid_leftWord (key : SlotKey) : Solid key.leftWord := by
  cases key with
  | player _ | temp _ => exact (by decide : Solid "stat")
  | global _ => exact (by decide : Solid "globalstat")
  | team _ _ => exact (by decide : Solid "teamstat")

theorem left_eq (key : SlotKey) : key.left = unwords (key.leftWord :: key.names) := by
  have nonempty : key.names ≠ [] := by cases key <;> exact nofun
  rw [left, qualifiedName_eq, ← List.singleton_append,
    unwords_append (List.cons_ne_nil _ _) nonempty]
  rfl

theorem solid_leftWords (legible : key.Legible) : ∀ word ∈ key.leftWord :: key.names, Solid word :=
  List.forall_mem_cons.mpr ⟨key.solid_leftWord, legible.solid⟩

/-- The left side of a key is its scope and its names, one word each. -/
theorem words_left (legible : key.Legible) : words key.left = key.leftWord :: key.names := by
  rw [left_eq, words_unwords (solid_leftWords legible)]

theorem phrase_left (legible : key.Legible) : Phrase key.left :=
  ⟨_, List.cons_ne_nil _ _, solid_leftWords legible, key.left_eq⟩

theorem no_mode_left (sound : key.Sound) : ∀ word ∈ words key.left, Mode.ofWord? word = none := by
  rw [words_left sound.legible]
  refine List.forall_mem_cons.mpr ⟨?_, fun name member => (sound.names name member).mode⟩
  cases key <;> rfl

/-- Different keys are in different cells. -/
theorem left_injective (sound : key.Sound) (sound' : other.Sound) (same : key.left = other.left) :
    key = other := by
  have texts := congrArg words same
  rw [words_left sound.legible, words_left sound'.legible] at texts
  obtain ⟨scope, names⟩ := List.cons.inj texts
  -- Stats of the player and temps share a scope; all others differ in their first word.
  cases key with
  | player name =>
      cases other with
      | player name' =>
          obtain rfl : name = name' := (List.cons.inj names).1
          rfl
      | temp number =>
          have like : beginsWith "_t" name = false := sound.apart
          rw [show name = "_t" ++ number.repr from (List.cons.inj names).1, beginsWith_append] at like
          cases like
      | global _ | team _ _ => exact absurd scope (by simp [leftWord])
  | global name =>
      cases other with
      | global name' =>
          obtain rfl : name = name' := (List.cons.inj names).1
          rfl
      | player _ | team _ _ | temp _ => exact absurd scope (by simp [leftWord])
  | team name holder =>
      cases other with
      | team name' holder' =>
          obtain ⟨first, rest⟩ := List.cons.inj names
          obtain rfl : name = name' := first
          obtain rfl : holder = holder' := (List.cons.inj rest).1
          rfl
      | player _ | global _ | temp _ => exact absurd scope (by simp [leftWord])
  | temp number =>
      cases other with
      | temp number' =>
          obtain rfl : number = number' :=
            Nat.repr_injective ((String.append_right_inj _).mp (List.cons.inj names).1)
          rfl
      | player name =>
          have like : beginsWith "_t" name = false := sound'.apart
          rw [← show "_t" ++ number.repr = name from (List.cons.inj names).1, beginsWith_append]
            at like
          cases like
      | global _ | team _ _ => exact absurd scope (by simp [leftWord])

end Left

/-! ## Right sides -/

section Right

variable {key : SlotKey}

theorem phrase_right (legible : key.Legible) : Phrase key.right := by
  have lead : Solid ("%stat." ++ key.rightWord ++ "/") := by
    cases key with
    | player _ | temp _ => exact (by decide : Solid "%stat.player/")
    | global _ => exact (by decide : Solid "%stat.global/")
    | team _ _ => exact (by decide : Solid "%stat.team/")
  have percent : Solid "%" := by decide
  unfold right
  cases key with
  | team name holder =>
      have first := legible.solid name List.mem_cons_self
      have second := legible.solid holder (List.mem_cons_of_mem _ List.mem_cons_self)
      have parts := (lead.append first).phrase.append (second.append percent).phrase
      simpa only [qualifiedName, team?, SlotKey.name, String.append_assoc] using parts
  | player name | global name | temp number =>
      have first := legible.solid _ List.mem_cons_self
      exact ((lead.append first).append percent).phrase

theorem right_toList (key : SlotKey) :
    key.right.toList =
      '%' :: ("stat." ++ key.rightWord ++ "/" ++ key.qualifiedName).toList ++ ['%'] := by
  have percent : "%stat." = "%" ++ "stat." := by decide
  simp only [right, percent, String.toList_append]
  rfl

theorem qualifiedName_last (legible : key.Legible) :
    key.qualifiedName.toList ≠ [] ∧ ∀ c ∈ key.qualifiedName.toList.getLast?, c ≠ '%' := by
  have name (name) (member : name ∈ key.names) :
      name.toList ≠ [] ∧ ∀ c ∈ name.toList.getLast?, c ≠ '%' := by
    obtain ⟨nonempty, -⟩ := legible.solid name member
    refine ⟨by simpa using nonempty, ?_⟩
    rintro c last rfl
    exact legible.percent name member (List.mem_of_getLast? last)
  cases key with
  | team first holder =>
      obtain ⟨nonempty, last⟩ := name holder (List.mem_cons_of_mem _ List.mem_cons_self)
      have text : (team first holder).qualifiedName = first ++ " " ++ holder := rfl
      rw [text, String.toList_append, List.getLast?_append_of_ne_nil _ nonempty]
      exact ⟨by simp, last⟩
  | player _ | global _ | temp _ => exact name _ List.mem_cons_self

theorem behind?_eq_none {lead text : String}
    (differ : ∀ rest, after? lead.toList (text.toList ++ rest) = none) (rest : String) :
    behind? lead (text ++ rest) = none := by
  rw [behind?, String.toList_append, differ]
  rfl

theorem cellForms_lead (key : SlotKey) :
    (cellForms.findSome? fun (right, left) =>
      (behind? right ("stat." ++ key.rightWord ++ "/" ++ key.qualifiedName)).map (left ++ ·)) =
      some key.left := by
  have player (rest : String) : "stat." ++ "player" ++ "/" ++ rest = "stat.player/" ++ rest := rfl
  have global (rest : String) : "stat." ++ "global" ++ "/" ++ rest = "stat.global/" ++ rest := rfl
  have team (rest : String) : "stat." ++ "team" ++ "/" ++ rest = "stat.team/" ++ rest := rfl
  have playerGlobal (rest : String) : behind? "stat.player/" ("stat.global/" ++ rest) = none :=
    behind?_eq_none (fun _ => rfl) rest
  have playerTeam (rest : String) : behind? "stat.player/" ("stat.team/" ++ rest) = none :=
    behind?_eq_none (fun _ => rfl) rest
  have globalTeam (rest : String) : behind? "stat.global/" ("stat.team/" ++ rest) = none :=
    behind?_eq_none (fun _ => rfl) rest
  cases key with
  | player _ | temp _ =>
      simp only [rightWord, player, cellForms, List.findSome?_cons, behind?_append, Option.map_some]
      rfl
  | global name =>
      simp only [rightWord, global, cellForms, List.findSome?_cons, behind?_append, playerGlobal,
        Option.map_some, Option.map_none]
      rfl
  | team name holder =>
      simp only [rightWord, team, cellForms, List.findSome?_cons, behind?_append, playerTeam,
        globalTeam, Option.map_some, Option.map_none]
      rfl

/-- The right side of a key names the cell of its left side. -/
theorem cellOfRight?_right (legible : key.Legible) : cellOfRight? key.right = some key.left := by
  obtain ⟨nonempty, last⟩ := qualifiedName_last legible
  have inner : dropEnds (· = '%') key.right.toList =
      ("stat." ++ key.rightWord ++ "/" ++ key.qualifiedName).toList := by
    rw [right_toList]
    refine dropEnds_between rfl rfl ?_ ?_ ?_
    · simp
    · intro c first
      have head : ("stat." ++ key.rightWord ++ "/" ++ key.qualifiedName).toList.head? =
          some 's' := by
        simp only [String.append_assoc, String.toList_append]
        rfl
      rw [head] at first
      cases first
      rfl
    · intro c final
      rw [String.toList_append, List.getLast?_append_of_ne_nil _ nonempty] at final
      simpa using last c final
  unfold cellOfRight?
  rw [inner, String.ofList_toList]
  exact cellForms_lead key

end Right

end SlotKey

end StatScript
