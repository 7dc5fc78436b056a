import StatScript.Proofs.Compilation.Draft
import StatScript.Proofs.Machine.Changes

/-!
# A machine without bounds

The cells of the target hold 64 bits. Here the same changes, read from the same texts, are made to integers of
any size, and division goes toward zero as before. A value that is neither a numeral nor a cell, such as a
placeholder, has a number that is given from outside. Each division is written down.

Results:
1. `Ideal.run_change`: what a change does to its cell, whatever its value is.
2. `Ideal.Extends.eval_eq`: an operand that names no new temp keeps its number while temps are changed.
-/

namespace StatScript

open Text

/-- A machine without bounds: the numbers in its cells and of other values, and the divisions made so far as
dividend and divisor, the latest first. -/
structure Ideal where
  cells : String → Int
  outer : String → Option Int
  divisions : List (Int × Int) := []

/-- The cell that an operand names as the value of a change. -/
def Operand.cell? (operand : Operand) : Option String :=
  cellOfRight? (unwords (words operand.right))

namespace Ideal

/-- Puts a number into a cell. -/
def set (machine : Ideal) (cell : String) (number : Int) : Ideal :=
  { machine with cells := fun other => if other = cell then number else machine.cells other }

/-- The number that a value stands for: a numeral, the cell that it names, or else what is given. -/
def resolve (machine : Ideal) (value : String) : Except Fault Int :=
  match integer? value.toList with
  | some number => .ok number
  | none =>
      match cellOfRight? value with
      | some cell => .ok (machine.cells cell)
      | none =>
          match machine.outer value with
          | some number => .ok number
          | none => .error (.unreadableValue value)

/-- Divides a cell by a number, toward zero, and writes the division down. -/
def divide (machine : Ideal) (cell : String) (divisor : Int) : Ideal :=
  { machine.set cell ((machine.cells cell).tdiv divisor) with
    divisions := (machine.cells cell, divisor) :: machine.divisions }

/-- Changes the number in a cell. -/
def apply (machine : Ideal) (cell : String) (number : Int) : Mode → Except Fault Ideal
  | .set => .ok (machine.set cell number)
  | .combine .add => .ok (machine.set cell (machine.cells cell + number))
  | .combine .sub => .ok (machine.set cell (machine.cells cell - number))
  | .combine .mul => .ok (machine.set cell (machine.cells cell * number))
  | .combine .div =>
      if number = 0 then .error .divisionByZero else .ok (machine.divide cell number)

/-- Performs a change: the words before the mode name the cell, those behind it the value. -/
def perform (machine : Ideal) (text : String) : Except Fault Ideal :=
  match cutAtWord? Mode.ofWord? (words text) with
  | none => .error (.unreadableChange text)
  | some (target, mode, value) => do
      let number ← machine.resolve (unwords value)
      machine.apply (unwords target) number mode

/-- Runs lines that are changes. -/
def run (machine : Ideal) : List Line → Except Fault Ideal
  | [] => .ok machine
  | line :: rest =>
      match line.tag with
      | .change _ => do
          let next ← machine.perform line.text
          next.run rest
      | _ => .error (.unreadableChange line.text)

/-- The number of an operand as the value of a change. -/
def eval (machine : Ideal) (operand : Operand) : Except Fault Int :=
  machine.resolve (unwords (words operand.right))

/-! ## Runs -/

section Runs

variable {machine next : Ideal}

@[simp]
theorem cells_set (machine : Ideal) (cell : String) (number : Int) :
    (machine.set cell number).cells cell = number :=
  if_pos rfl

@[simp]
theorem cells_divide (machine : Ideal) (cell : String) (divisor : Int) :
    (machine.divide cell divisor).cells cell = (machine.cells cell).tdiv divisor :=
  if_pos rfl

theorem run_append {first : List Line} (ran : machine.run first = .ok next) (second : List Line) :
    machine.run (first ++ second) = next.run second := by
  induction first generalizing machine with
  | nil =>
      cases ran
      rfl
  | cons line rest ih =>
      rw [run] at ran
      rw [List.cons_append, run]
      split at ran
      · cases performed : machine.perform line.text with
        | error fault =>
            rw [performed] at ran
            cases ran
        | ok middle =>
            rw [performed] at ran
            exact ih ran
      · cases ran

/-- A change of a sound slot does to its cell what its mode says. The value may be any text. -/
theorem run_change (change : Change) (sound : change.target.key.Sound) {number : Int}
    (read : machine.eval change.value = .ok number)
    (applied : machine.apply change.target.left number change.mode = .ok next) (indent : Nat)
    (rest : List Change) :
    machine.run (Draft.changeLines indent (change :: rest)) =
      next.run (Draft.changeLines indent rest) := by
  have unread : ∀ word ∈ words change.target.left, Mode.ofWord? word = none :=
    SlotKey.no_mode_left sound
  have target : unwords (words change.target.left) = change.target.left :=
    (SlotKey.phrase_left sound.legible).unwords_words
  have performed : machine.perform change.text = .ok next := by
    unfold perform Change.text
    rw [cutAtWord?_phrases unread change.mode.solid_word change.mode.ofWord?_word]
    simp only [target]
    rw [eval] at read
    rw [read]
    exact applied
  show (machine.perform change.text >>= fun later => later.run _) = _
  rw [performed]
  rfl

/-- An operand that is held by a temp has the number of its cell. -/
theorem eval_temp (machine : Ideal) {operand : Operand} {temp : Temp}
    (held : operand.right = temp.slot.right) :
    machine.eval operand = .ok (machine.cells temp.slot.left) := by
  have sound : temp.slot.key.Sound := SlotKey.sound_temp temp.number
  have text : unwords (words operand.right) = temp.slot.key.right := by
    rw [held]
    exact (SlotKey.phrase_right sound.legible).unwords_words
  have numeral : integer? temp.slot.key.right.toList = none := by
    rw [SlotKey.right_toList]
    exact integer?_eq_none rfl nofun nofun
  simp only [eval, text, resolve, numeral, SlotKey.cellOfRight?_right sound.legible]
  rfl

end Runs

/-! ## Frames -/

/-- Of the cells, only temps behind the first `temps` ones and up to `temps'` may differ, and the divisions
made in between leave no remainder. -/
structure Extends (temps temps' : Nat) (machine later : Ideal) : Prop where
  outer : later.outer = machine.outer
  cells : ∀ cell, (∀ number, temps < number → number ≤ temps' → cell ≠ (SlotKey.temp number).left) →
    later.cells cell = machine.cells cell
  divisions : ∃ made, later.divisions = made ++ machine.divisions ∧
    ∀ division ∈ made, division.2 ∣ division.1

end Ideal

/-- The operand names no temp behind the first `temps` ones and up to `temps'`. -/
def Operand.ApartFrom (temps temps' : Nat) (operand : Operand) : Prop :=
  ∀ number, temps < number → number ≤ temps' → operand.cell? ≠ some (SlotKey.temp number).left

namespace Ideal.Extends

variable {temps temps' temps'' : Nat} {machine next later : Ideal}

theorem refl (temps temps' : Nat) (machine : Ideal) : Extends temps temps' machine machine :=
  ⟨rfl, fun _ _ => rfl, [], rfl, List.forall_mem_nil _⟩

theorem mono {less more : Nat} (frame : Extends temps temps' machine later) (le : less ≤ temps)
    (le' : temps' ≤ more) : Extends less more machine later :=
  ⟨frame.outer, fun cell other => frame.cells cell fun number least most =>
    other number (Nat.lt_of_le_of_lt le least) (Nat.le_trans most le'), frame.divisions⟩

theorem trans (first : Extends temps temps' machine next) (second : Extends temps temps' next later) :
    Extends temps temps' machine later := by
  obtain ⟨made, before, exact⟩ := first.divisions
  obtain ⟨made', behind, exact'⟩ := second.divisions
  refine ⟨second.outer.trans first.outer, fun cell other => ?_, made' ++ made, ?_, ?_⟩
  · rw [second.cells cell other, first.cells cell other]
  · rw [behind, before, List.append_assoc]
  · exact List.forall_mem_append.mpr ⟨exact', exact⟩

/-- A temp takes a number. -/
theorem set (machine : Ideal) {temp : Temp} (more : temps < temp.number) (most : temp.number ≤ temps')
    (value : Int) : Extends temps temps' machine (machine.set temp.slot.left value) :=
  ⟨rfl, fun _ other => if_neg (other temp.number more most), [], rfl, List.forall_mem_nil _⟩

/-- A temp is divided by a number that divides it. -/
theorem divide (machine : Ideal) {temp : Temp} (more : temps < temp.number)
    (most : temp.number ≤ temps') {divisor : Int} (exact : divisor ∣ machine.cells temp.slot.left) :
    Extends temps temps' machine (machine.divide temp.slot.left divisor) :=
  ⟨rfl, fun _ other => if_neg (other temp.number more most), [_], rfl, List.forall_mem_singleton.mpr exact⟩

/-- An operand that names no new temp keeps its number. -/
theorem eval_eq {operand : Operand} (frame : Extends temps temps' machine later)
    (apart : operand.ApartFrom temps temps') : later.eval operand = machine.eval operand := by
  rw [Operand.ApartFrom, Operand.cell?] at apart
  unfold eval resolve
  rw [frame.outer]
  cases named : cellOfRight? (unwords (words operand.right)) with
  | none => rfl
  | some cell =>
      have kept : later.cells cell = machine.cells cell := by
        refine frame.cells cell fun number more most same => ?_
        exact apart number more most (named.trans (congrArg some same))
      simp only [kept]

end Ideal.Extends

/-- A sound slot that was there before is no new temp. -/
theorem Operand.apartFrom_slot {cell : Slot} {temps : Nat} (sound : cell.key.Sound)
    (within : cell.key.Within temps) (temps' : Nat) : (slot cell).ApartFrom temps temps' := by
  intro number more _ named
  have text : unwords (words (slot cell).right) = cell.key.right :=
    (SlotKey.phrase_right sound.legible).unwords_words
  rw [cell?, text, SlotKey.cellOfRight?_right sound.legible] at named
  have same := SlotKey.left_injective sound (SlotKey.sound_temp number) (Option.some.inj named)
  exact Nat.not_le_of_lt more (within number same)

end StatScript
