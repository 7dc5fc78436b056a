import StatScript.Proofs.Machine.Reading

/-!
# Runs of changes

Code reads operands that were there before it and changes only temps that it hands out itself. So an
operand keeps its number while the code behind it runs.

Results:
1. `Keeps.trans`, `Operand.Usable.read_eq`: what a run leaves alone, and the operands among it.
2. `computes_basic`: the code of a basic operation leaves the number in its result.
-/

namespace StatScript

namespace Store

/-- Performs changes one behind the other. -/
def performAll (store : Store) : List Change → Except Fault Store
  | [] => .ok store
  | change :: rest => do
      let next ← store.perform change.text
      next.performAll rest

theorem performAll_cons {store next : Store} {change : Change}
    (performed : store.perform change.text = .ok next) (rest : List Change) :
    store.performAll (change :: rest) = next.performAll rest := by
  rw [performAll, performed]
  rfl

theorem performAll_append {store next : Store} {first : List Change}
    (performed : store.performAll first = .ok next) (second : List Change) :
    store.performAll (first ++ second) = next.performAll second := by
  induction first generalizing store with
  | nil =>
      cases performed
      rfl
  | cons change rest ih =>
      rw [performAll] at performed
      cases stepped : store.perform change.text with
      | error fault =>
          rw [stepped] at performed
          cases performed
      | ok middle =>
          rw [stepped] at performed
          rw [List.cons_append, performAll_cons stepped]
          exact ih performed

end Store

/-- A readable change that leaves a number leaves it in its cell. -/
theorem perform_eq_ok {change : Change} (readable : change.Readable) {store : Store} {number : Int64}
    (result : Store.outcome change.mode (store.get change.target.left) (change.value.read store) =
      .ok number) :
    store.perform change.text = .ok (store.set change.target.left number) := by
  rw [perform_text readable, result]
  rfl

/-! ## Frames -/

/-- Only the temps behind the first `temps` ones, and up to `temps'`, may differ. -/
def Keeps (temps temps' : Nat) (store later : Store) : Prop :=
  ∀ cell, (∀ number, temps < number → number ≤ temps' → cell ≠ (SlotKey.temp number).left) →
    later.get cell = store.get cell

namespace Keeps

theorem refl (temps temps' : Nat) (store : Store) : Keeps temps temps' store store :=
  fun _ _ => rfl

theorem trans {temps temps' temps'' : Nat} {store next later : Store}
    (first : Keeps temps temps' store next) (second : Keeps temps' temps'' next later)
    (le : temps ≤ temps') (le' : temps' ≤ temps'') : Keeps temps temps'' store later := by
  intro cell other
  have behind : later.get cell = next.get cell :=
    second cell fun number more most => other number (Nat.lt_of_le_of_lt le more) most
  have before : next.get cell = store.get cell :=
    first cell fun number more most => other number more (Nat.le_trans most le')
  rw [behind, before]

theorem set {temps temps' number : Nat} {store later : Store}
    (keeps : Keeps temps temps' store later) (more : temps < number) (most : number ≤ temps')
    (value : Int64) : Keeps temps temps' store (later.set (SlotKey.temp number).left value) := by
  intro cell other
  simpa [other number more most] using keeps cell other

end Keeps

/-- No temp still to be handed out. -/
def SlotKey.Within (temps : Nat) (key : SlotKey) : Prop :=
  ∀ number, key = temp number → number ≤ temps

theorem Keeps.get_eq {temps temps' : Nat} {store later : Store} {key : SlotKey}
    (keeps : Keeps temps temps' store later) (sound : key.Sound) (within : key.Within temps) :
    later.get key.left = store.get key.left := by
  refine keeps key.left fun number more _ same => ?_
  have temp : key = .temp number := SlotKey.left_injective sound (SlotKey.sound_temp number) same
  exact absurd (within number temp) (Nat.not_le_of_lt more)

/-! ## Operands -/

namespace Operand

/-- An operand that code behind `temps` temps may read. -/
structure Usable (temps : Nat) (operand : Operand) : Prop where
  readable : operand.Readable
  within : ∀ cell, operand.slot? = some cell → cell.key.Within temps

theorem usable_long (temps : Nat) (value : Int64) : (ofLong value).Usable temps :=
  ⟨trivial, nofun⟩

theorem usable_slot {temps : Nat} {cell : Slot} (sound : cell.key.Sound)
    (within : cell.key.Within temps) : (slot cell).Usable temps := by
  refine ⟨sound, ?_⟩
  rintro _ ⟨⟩
  exact within

theorem usable_computed {temps : Nat} {temp : Temp} (le : temp.number ≤ temps)
    (chain : List Operation) : (computed temp chain).Usable temps := by
  refine ⟨trivial, ?_⟩
  rintro _ ⟨⟩ number same
  cases same
  exact le

theorem read_of_slot? {operand : Operand} {cell : Slot} (holder : operand.slot? = some cell)
    (store : Store) : operand.read store = store.get cell.left := by
  cases operand with
  | slot cell => cases holder; rfl
  | computed temp chain => cases holder; rfl
  | literal value => cases holder
  | placeholder text type => cases holder

namespace Usable

variable {temps temps' : Nat} {operand : Operand}

theorem mono (usable : operand.Usable temps) (le : temps ≤ temps') : operand.Usable temps' :=
  ⟨usable.readable, fun cell holder number temp =>
    Nat.le_trans (usable.within cell holder number temp) le⟩

/-- An operand keeps its number while the code behind it runs. -/
theorem read_eq {store later : Store} (usable : operand.Usable temps)
    (keeps : Keeps temps temps' store later) : operand.read later = operand.read store := by
  cases operand with
  | slot cell => exact keeps.get_eq usable.readable (usable.within cell rfl)
  | computed temp chain =>
      exact keeps.get_eq (SlotKey.sound_temp temp.number) (usable.within temp.slot rfl)
  | literal value => cases value <;> rfl
  | placeholder text type => rfl

end Usable

end Operand

/-! ## Code -/

/-- Code behind `temps` temps that leaves a number in its result, by what the cells hold before it. -/
structure Computes (code : Code Operand) (temps : Nat) (gives : Store → Int64 → Prop) : Prop where
  grows : temps ≤ code.temps
  result : code.result.Usable code.temps
  run : ∀ store number, gives store number →
    ∃ later, store.performAll code.changes = .ok later ∧ Keeps temps code.temps store later ∧
      code.result.read later = number

/-- An operand that is there already needs no code. -/
theorem computes_operand {operand : Operand} {temps : Nat} {gives : Store → Int64 → Prop}
    (usable : operand.Usable temps)
    (read : ∀ {store number}, gives store number → operand.read store = number) :
    Computes ⟨[], operand, temps⟩ temps gives :=
  ⟨Nat.le_refl _, usable, fun store _ given => ⟨store, rfl, .refl _ _ _, read given⟩⟩

/-- Two pieces of code, of which the second does not depend on the temps of the first, leave both of
their results. -/
theorem Computes.both {first second : Code Operand} {temps : Nat} {gives gives' : Store → Int64 → Prop}
    (computes : Computes first temps gives) (computes' : Computes second first.temps gives')
    (stable : ∀ {store later number}, Keeps temps first.temps store later →
      gives' store number → gives' later number)
    {store : Store} {left right : Int64} (given : gives store left) (given' : gives' store right) :
    ∃ later, store.performAll (first.changes ++ second.changes) = .ok later ∧
      Keeps temps second.temps store later ∧
      first.result.read later = left ∧ second.result.read later = right := by
  obtain ⟨middle, performed, keeps, read⟩ := computes.run store left given
  obtain ⟨later, performed', keeps', read'⟩ := computes'.run middle right (stable keeps given')
  refine ⟨later, ?_, keeps.trans keeps' computes.grows computes'.grows, ?_, read'⟩
  · rw [Store.performAll_append performed, performed']
  · rw [computes.result.read_eq keeps', read]

/-- The code of a basic operation leaves the number in its result. -/
theorem computes_basic (op : BasicOp) {left right : Operand} {temps : Nat}
    (usable : left.Usable temps) (usable' : right.Usable temps) :
    Computes (Emit.basic op left right temps) temps
      fun store number => Store.calculate op (left.read store) (right.read store) = .ok number := by
  let temp : Temp := { number := temps + 1, type := Emit.resultType left right }
  let first : Change := { target := temp.slot, mode := .set, value := left, defining := true }
  let second : Change := { target := temp.slot, mode := .combine op, value := right }
  have changes : (Emit.basic op left right temps).changes = [first, second] := rfl
  have result : (Emit.basic op left right temps).result =
      .computed temp (left.chain ++ (right.chain ++ []) ++ [.basic op]) := rfl
  have sound : temp.slot.key.Sound := SlotKey.sound_temp (temps + 1)
  have readable : first.Readable := ⟨sound, usable.readable⟩
  have readable' : second.Readable := ⟨sound, usable'.readable⟩
  refine ⟨Nat.le_succ temps, ?_, ?_⟩
  · rw [result]
    exact Operand.usable_computed (Nat.le_refl (temps + 1)) _
  intro store number calculated
  let middle := store.set temp.slot.left (left.read store)
  have keeps : Keeps temps (temps + 1) store middle :=
    (Keeps.refl _ _ _).set (Nat.lt_succ_self _) (Nat.le_refl _) _
  have copied : store.perform first.text = .ok middle := perform_eq_ok readable rfl
  -- The right operand is not the new temp, so it has the number that it had before.
  have operands : Store.outcome (.combine op) (middle.get temp.slot.left) (right.read middle) =
      .ok number := by
    rw [usable'.read_eq keeps, Store.get_set, if_pos rfl]
    exact calculated
  have combined := perform_eq_ok readable' operands
  refine ⟨middle.set temp.slot.left number, ?_, ?_, ?_⟩
  · rw [changes, Store.performAll_cons copied, Store.performAll_cons combined]
    rfl
  · exact keeps.set (Nat.lt_succ_self _) (Nat.le_refl _) _
  · show (middle.set temp.slot.left number).get temp.slot.left = number
    simp

end StatScript
