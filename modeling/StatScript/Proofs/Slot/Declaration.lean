import Mathlib.Data.Finset.Card
import Mathlib.Data.Finset.Dedup
import StatScript.Slot.Registry

/-!
# Declarations

Slots are declared one after another, and a declaration that is refused changes nothing. What a registry holds then
follows from the declarations alone: one slot for each key, with the first concrete type that was declared for it.
A declaration is refused iff its type is concrete and another one than that.

Results:
1. `Registry.attempt_of_conflict`, `Registry.attempt_of_not_conflict`: what one declaration leads to.
2. `Registry.slots_ofSlots`: the registry behind declarations, in order of the first declaration of each key.
3. `Registry.allAccepted_iff`: all declarations are accepted iff no two of them disagree.
4. `Registry.declarations_settle`: so the first concrete type wins, and the order matters only for which declarations
   are refused.
-/

namespace StatScript

/-- The first concrete type that slots declare for a key. -/
def firstConcrete? (key : SlotKey) (slots : List Slot) : Option ValueType :=
  (slots.find? fun slot => slot.key = key ∧ slot.type ≠ .any).map Slot.type

/-- The slot of a key with the first concrete type declared for it, if there is one. -/
def settledSlot (key : SlotKey) (slots : List Slot) : Slot :=
  { key, type := (firstConcrete? key slots).getD .any }

/-- The slot is declared with a concrete type, and with another one than declared for its key before. -/
def Conflicts (slots : List Slot) (slot : Slot) : Prop :=
  slot.type ≠ .any ∧ ∃ first, firstConcrete? slot.key slots = some first ∧ slot.type ≠ first

/-- No two slots declare different concrete types for one key. -/
def Consistent (slots : List Slot) : Prop :=
  ∀ first ∈ slots, ∀ second ∈ slots, first.key = second.key → first.type ≠ .any → second.type ≠ .any →
    first.type = second.type

section FirstConcrete

variable {slots others : List Slot} {slot : Slot} {key : SlotKey} {type : ValueType}

theorem exists_of_firstConcrete? (known : firstConcrete? key slots = some type) :
    ∃ slot ∈ slots, slot.key = key ∧ slot.type = type ∧ type ≠ .any := by
  obtain ⟨slot, found, rfl⟩ := Option.map_eq_some_iff.mp known
  obtain ⟨same, concrete⟩ : slot.key = key ∧ slot.type ≠ .any := by simpa using List.find?_some found
  exact ⟨slot, List.mem_of_find?_eq_some found, same, rfl, concrete⟩

theorem mem_keys_of_firstConcrete? (known : firstConcrete? key slots = some type) : key ∈ slots.map Slot.key := by
  obtain ⟨slot, member, same, -⟩ := exists_of_firstConcrete? known
  exact List.mem_map.mpr ⟨slot, member, same⟩

theorem firstConcrete?_concat (key : SlotKey) (slots : List Slot) (slot : Slot) :
    firstConcrete? key (slots ++ [slot]) =
      (firstConcrete? key slots).or (if slot.key = key ∧ slot.type ≠ .any then some slot.type else none) := by
  rw [firstConcrete?, List.find?_append, Option.map_or, List.find?_singleton, firstConcrete?]
  simp only [decide_eq_true_eq, apply_ite (Option.map Slot.type), Option.map_some, Option.map_none]

/-- What was declared first stays so. -/
theorem firstConcrete?_of_prefix (earlier : slots <+: others) (known : firstConcrete? key slots = some type) :
    firstConcrete? key others = some type := by
  obtain ⟨slot, found, rfl⟩ := Option.map_eq_some_iff.mp known
  exact Option.map_eq_some_iff.mpr ⟨slot, earlier.find?_eq_some found, rfl⟩

theorem settledSlot_concat_of_ne (other : slot.key ≠ key) :
    settledSlot key (slots ++ [slot]) = settledSlot key slots := by
  rw [settledSlot, settledSlot, firstConcrete?_concat, if_neg fun same => other same.1, Option.or_none]

theorem settledSlot_concat_of_some (known : firstConcrete? key slots = some type) (slot : Slot) :
    settledSlot key (slots ++ [slot]) = { key, type } := by
  rw [settledSlot, firstConcrete?_concat, known]
  rfl

theorem settledSlot_concat_of_none (unknown : firstConcrete? slot.key slots = none) :
    settledSlot slot.key (slots ++ [slot]) = slot := by
  rw [settledSlot, firstConcrete?_concat, unknown, Option.none_or]
  by_cases concrete : slot.type = .any
  · rw [if_neg fun same => same.2 concrete, Option.getD_none, ← concrete]
  · rw [if_pos ⟨rfl, concrete⟩, Option.getD_some]

theorem settledSlot_of_none (unknown : firstConcrete? key slots = none) :
    settledSlot key slots = { key, type := .any } := by
  rw [settledSlot, unknown, Option.getD_none]

theorem settledSlot_of_some (known : firstConcrete? key slots = some type) :
    settledSlot key slots = { key, type } := by
  rw [settledSlot, known, Option.getD_some]

/-- Where no two slots disagree, each concrete type is the first of its key. -/
theorem Consistent.firstConcrete?_eq_some_iff (consistent : Consistent slots) :
    firstConcrete? key slots = some type ↔ ∃ slot ∈ slots, slot.key = key ∧ slot.type = type ∧ type ≠ .any := by
  refine ⟨exists_of_firstConcrete?, ?_⟩
  rintro ⟨slot, member, rfl, rfl, concrete⟩
  cases known : firstConcrete? slot.key slots with
  | none =>
      have free := List.find?_eq_none.mp (Option.map_eq_none_iff.mp known) slot member
      exact absurd (decide_eq_true ⟨rfl, concrete⟩) free
  | some first =>
      obtain ⟨other, member', same, rfl, concrete'⟩ := exists_of_firstConcrete? known
      rw [consistent other member' slot member same concrete' concrete]

theorem Consistent.perm (consistent : Consistent slots) (perm : slots.Perm others) : Consistent others :=
  fun first member second member' =>
    consistent first (perm.mem_iff.mpr member) second (perm.mem_iff.mpr member')

theorem Consistent.settledSlot_eq (consistent : Consistent slots) (perm : slots.Perm others) (key : SlotKey) :
    settledSlot key others = settledSlot key slots := by
  have same : firstConcrete? key others = firstConcrete? key slots := by
    refine Option.ext fun type => ?_
    rw [(consistent.perm perm).firstConcrete?_eq_some_iff, consistent.firstConcrete?_eq_some_iff]
    simp only [perm.mem_iff]
  rw [settledSlot, same, settledSlot]

end FirstConcrete

namespace Registry

/-- Declares a slot. A registry that refuses it stays as it is. -/
def attempt (registry : Registry) (slot : Slot) : Except LoweringError Slot × Registry :=
  match registry.declare slot with
  | .ok (declared, next) => (.ok declared, next)
  | .error error => (.error error, registry)

/-- The registry behind declarations, refused or not. -/
def ofSlots (slots : List Slot) : Registry :=
  slots.foldl (fun registry slot => (registry.attempt slot).2) {}

/-- One slot for each key that is declared, with its type. -/
def entries (slots : List Slot) : List Slot :=
  (slots.map Slot.key).eraseDups.map fun key => settledSlot key slots

section Keys

variable {slots : List Slot} {slot : Slot}

theorem eraseDups_concat (keys : List SlotKey) (key : SlotKey) :
    (keys ++ [key]).eraseDups = if key ∈ keys then keys.eraseDups else keys.eraseDups ++ [key] := by
  rw [List.eraseDups_append]
  split
  · next member => simp [List.removeAll, member]
  · next fresh => simp [List.removeAll, fresh, List.eraseDups_cons]

theorem nodup_eraseDups (keys : List SlotKey) : keys.eraseDups.Nodup := by
  induction keys using List.reverseRecOn with
  | nil => exact List.nodup_nil
  | append_singleton keys key ih =>
      rw [eraseDups_concat]
      split
      · exact ih
      · next fresh =>
          have unlisted : key ∉ keys.eraseDups := fun member => fresh (List.mem_eraseDups.mp member)
          exact List.nodup_append_comm.mp (List.nodup_cons.mpr ⟨unlisted, ih⟩)

/-- A declaration for a known key that leaves its type. -/
theorem entries_concat_of_mem (known : slot.key ∈ slots.map Slot.key)
    (same : settledSlot slot.key (slots ++ [slot]) = settledSlot slot.key slots) :
    entries (slots ++ [slot]) = entries slots := by
  rw [entries, List.map_append, List.map_singleton, eraseDups_concat, if_pos known]
  refine List.map_congr_left fun key _ => ?_
  by_cases other : slot.key = key
  · subst other
    exact same
  · exact settledSlot_concat_of_ne other

/-- A declaration for a known key that had no concrete type. -/
theorem entries_concat_of_none (known : slot.key ∈ slots.map Slot.key)
    (unknown : firstConcrete? slot.key slots = none) :
    entries (slots ++ [slot]) =
      (entries slots).map fun entry => if entry.key = slot.key then entry.typed slot.type else entry := by
  rw [entries, List.map_append, List.map_singleton, eraseDups_concat, if_pos known, entries, List.map_map]
  refine List.map_congr_left fun key _ => ?_
  by_cases other : slot.key = key
  · subst other
    rw [settledSlot_concat_of_none unknown]
    exact (if_pos rfl).symm
  · rw [settledSlot_concat_of_ne other, Function.comp_apply]
    exact (if_neg (Ne.symm other)).symm

theorem firstConcrete?_of_fresh (fresh : slot.key ∉ slots.map Slot.key) :
    firstConcrete? slot.key slots = none := by
  refine Option.map_eq_none_iff.mpr (List.find?_eq_none.mpr fun other member same => ?_)
  exact fresh (List.mem_map.mpr ⟨other, member, (of_decide_eq_true same).1⟩)

theorem entries_concat_of_fresh (fresh : slot.key ∉ slots.map Slot.key) :
    entries (slots ++ [slot]) = entries slots ++ [slot] := by
  rw [entries, List.map_append, List.map_singleton, eraseDups_concat, if_neg fresh, List.map_append,
    List.map_singleton, settledSlot_concat_of_none (firstConcrete?_of_fresh fresh), entries]
  refine congrArg (· ++ [slot]) (List.map_congr_left fun key member => settledSlot_concat_of_ne ?_)
  rintro rfl
  exact fresh (List.mem_eraseDups.mp member)

/-- A declaration that is refused. -/
theorem entries_concat_of_conflict (conflicts : Conflicts slots slot) :
    entries (slots ++ [slot]) = entries slots := by
  obtain ⟨-, first, known, -⟩ := conflicts
  refine entries_concat_of_mem (mem_keys_of_firstConcrete? known) ?_
  exact (settledSlot_concat_of_some known slot).trans (settledSlot_of_some known).symm

theorem find?_entries (slots : List Slot) (key : SlotKey) :
    find? { slots := entries slots } key =
      if key ∈ slots.map Slot.key then some (settledSlot key slots) else none := by
  rw [find?, entries, List.find?_map]
  split
  · next known =>
      cases found : (slots.map Slot.key).eraseDups.find? _ with
      | none => exact absurd (decide_eq_true rfl) (List.find?_eq_none.mp found key (List.mem_eraseDups.mpr known))
      | some other =>
          have same : other = key := by simpa [settledSlot] using List.find?_some found
          rw [same]
          rfl
  · next fresh =>
      refine Option.map_eq_none_iff.mpr (List.find?_eq_none.mpr fun other member same => fresh ?_)
      obtain rfl : other = key := of_decide_eq_true same
      exact List.mem_eraseDups.mp member

end Keys

section Attempts

variable {slots others : List Slot} {slot : Slot}

/-- A declaration that disagrees with an earlier one is refused. -/
theorem attempt_of_conflict (conflicts : Conflicts slots slot) :
    attempt { slots := entries slots } slot =
      (.error (.type (.redeclared (settledSlot slot.key slots) slot)), { slots := entries slots }) := by
  obtain ⟨concrete, first, known, differs⟩ := conflicts
  obtain ⟨-, -, -, -, concrete'⟩ := exists_of_firstConcrete? known
  have refused : declare { slots := entries slots } slot =
      .error (.type (.redeclared (settledSlot slot.key slots) slot)) := by
    rw [declare, find?_entries, if_pos (mem_keys_of_firstConcrete? known)]
    dsimp only
    rw [settledSlot_of_some known, if_neg (not_or.mpr ⟨concrete, differs⟩), if_neg concrete']
  rw [attempt, refused]

/-- A new key is added with its slot. -/
theorem declare_of_fresh (fresh : slot.key ∉ slots.map Slot.key) :
    declare { slots := entries slots } slot = .ok (slot, { slots := entries (slots ++ [slot]) }) := by
  rw [declare, find?_entries, if_neg fresh, entries_concat_of_fresh fresh]

/-- A key without a concrete type takes the type of the slot, concrete or not. -/
theorem declare_of_none (listed : slot.key ∈ slots.map Slot.key) (unknown : firstConcrete? slot.key slots = none) :
    declare { slots := entries slots } slot = .ok (slot, { slots := entries (slots ++ [slot]) }) := by
  have settled := settledSlot_of_none unknown
  rw [declare, find?_entries, if_pos listed]
  dsimp only
  rw [settled]
  by_cases concrete : slot.type = .any
  · have same : slot = { key := slot.key, type := .any } := by rw [← concrete]
    have kept : settledSlot slot.key (slots ++ [slot]) = settledSlot slot.key slots :=
      (settledSlot_concat_of_none unknown).trans (same.trans settled.symm)
    rw [if_pos (.inl concrete), entries_concat_of_mem listed kept, ← same]
  · rw [if_neg (not_or.mpr ⟨concrete, concrete⟩), if_pos rfl, entries_concat_of_none listed unknown]
    rfl

/-- A key with a concrete type keeps it. -/
theorem declare_of_some {first : ValueType} (known : firstConcrete? slot.key slots = some first)
    (agrees : slot.type = .any ∨ slot.type = first) :
    declare { slots := entries slots } slot =
      .ok ({ key := slot.key, type := first }, { slots := entries (slots ++ [slot]) }) := by
  have listed := mem_keys_of_firstConcrete? known
  have settled := settledSlot_of_some known
  have kept := (settledSlot_concat_of_some known slot).trans settled.symm
  rw [declare, find?_entries, if_pos listed]
  dsimp only
  rw [settled, if_pos agrees, entries_concat_of_mem listed kept]

/-- Any other declaration is accepted, and returns what is known of its key then. -/
theorem attempt_of_not_conflict (agrees : ¬ Conflicts slots slot) :
    attempt { slots := entries slots } slot =
      (.ok (settledSlot slot.key (slots ++ [slot])), { slots := entries (slots ++ [slot]) }) := by
  have accepted : declare { slots := entries slots } slot =
      .ok (settledSlot slot.key (slots ++ [slot]), { slots := entries (slots ++ [slot]) }) := by
    cases known : firstConcrete? slot.key slots with
    | some first =>
        have same : slot.type = .any ∨ slot.type = first := by
          by_contra differs
          rw [not_or] at differs
          exact agrees ⟨differs.1, first, known, differs.2⟩
        rw [settledSlot_concat_of_some known, declare_of_some known same]
    | none =>
        rw [settledSlot_concat_of_none known]
        by_cases listed : slot.key ∈ slots.map Slot.key
        · exact declare_of_none listed known
        · exact declare_of_fresh listed
  rw [attempt, accepted]

/-- Behind declarations, a registry holds each key once, with the first concrete type declared for it. -/
@[simp]
theorem slots_ofSlots (slots : List Slot) : (ofSlots slots).slots = entries slots := by
  induction slots using List.reverseRecOn with
  | nil => rfl
  | append_singleton slots slot ih =>
      have whole : ofSlots slots = { slots := entries slots } := congrArg Registry.mk ih
      rw [ofSlots, List.foldl_concat, ← ofSlots, whole]
      by_cases conflicts : Conflicts slots slot
      · rw [attempt_of_conflict conflicts, entries_concat_of_conflict conflicts]
      · rw [attempt_of_not_conflict conflicts]

theorem ofSlots_eq (slots : List Slot) : ofSlots slots = { slots := entries slots } :=
  congrArg Registry.mk (slots_ofSlots slots)

theorem size_ofSlots (slots : List Slot) : (ofSlots slots).size = (slots.map Slot.key).toFinset.card := by
  have keys : (slots.map Slot.key).toFinset = (slots.map Slot.key).eraseDups.toFinset := by
    ext key
    rw [List.mem_toFinset, List.mem_toFinset, List.mem_eraseDups]
  rw [keys, List.toFinset_card_of_nodup (nodup_eraseDups _), size, slots_ofSlots, entries, List.length_map]

/-- Each of the declarations is accepted behind those before it. -/
def AllAccepted (slots : List Slot) : Prop :=
  ∀ before slot, before ++ [slot] <+: slots → ∃ declared, ((ofSlots before).attempt slot).1 = .ok declared

theorem accepted_iff : (∃ declared, ((ofSlots slots).attempt slot).1 = .ok declared) ↔ ¬ Conflicts slots slot := by
  rw [ofSlots_eq]
  by_cases conflicts : Conflicts slots slot
  · rw [attempt_of_conflict conflicts]
    exact iff_of_false nofun (not_not_intro conflicts)
  · rw [attempt_of_not_conflict conflicts]
    exact iff_of_true ⟨_, rfl⟩ conflicts

/-- All declarations are accepted iff no two of them disagree. -/
theorem allAccepted_iff : AllAccepted slots ↔ Consistent slots := by
  constructor
  · intro accepted
    -- An accepted concrete type is the first of its key, so two of one key are the same.
    have first : ∀ slot ∈ slots, slot.type ≠ .any → firstConcrete? slot.key slots = some slot.type := by
      intro slot member concrete
      obtain ⟨before, behind, rfl⟩ := List.append_of_mem member
      have earlier : before ++ [slot] <+: before ++ slot :: behind := ⟨behind, by simp⟩
      have agrees := accepted_iff.mp (accepted before slot earlier)
      refine firstConcrete?_of_prefix earlier ?_
      rw [firstConcrete?_concat, if_pos ⟨rfl, concrete⟩]
      cases known : firstConcrete? slot.key before with
      | none => rfl
      | some type =>
          have same : slot.type = type := by
            by_contra differs
            exact agrees ⟨concrete, type, known, differs⟩
          rw [Option.some_or, same]
    intro one member other member' same concrete concrete'
    have known := first one member concrete
    rw [same, first other member' concrete'] at known
    exact (Option.some.inj known).symm
  · intro consistent before slot earlier
    refine accepted_iff.mpr ?_
    rintro ⟨concrete, type, known, differs⟩
    obtain ⟨other, member, same, rfl, concrete'⟩ := exists_of_firstConcrete? known
    have listed : other ∈ slots := earlier.subset (List.mem_append_left _ member)
    have listed' : slot ∈ slots := earlier.subset (List.mem_append_right _ List.mem_cons_self)
    exact differs (consistent other listed slot listed' same concrete' concrete).symm

theorem find?_ofSlots_perm (perm : slots.Perm others) (accepted : AllAccepted slots) (key : SlotKey) :
    (ofSlots others).find? key = (ofSlots slots).find? key := by
  rw [ofSlots_eq, ofSlots_eq, find?_entries, find?_entries,
    (allAccepted_iff.mp accepted).settledSlot_eq perm key]
  simp only [(perm.map Slot.key).mem_iff]

end Attempts

/-- Behind any declarations, refused or not, another one is refused iff its type is concrete and differs from the
first concrete type declared for its key, and then the registry stays as it was. Otherwise the slot of its key is
returned with the first concrete type declared for it by then, or without one. The registry holds each key once.
Whether all of a number of declarations are accepted does not depend on their order, and if they are, neither does
the type of any key. -/
theorem declarations_settle (slots : List Slot) :
    (∀ slot, match (ofSlots slots).attempt slot with
      | (.error error, later) => Conflicts slots slot ∧ later = ofSlots slots ∧
          error = .type (.redeclared (settledSlot slot.key slots) slot)
      | (.ok declared, later) => ¬ Conflicts slots slot ∧ later = ofSlots (slots ++ [slot]) ∧
          declared.key = slot.key ∧ declared.type = (firstConcrete? slot.key (slots ++ [slot])).getD .any) ∧
      (ofSlots slots).size = (slots.map Slot.key).toFinset.card ∧
      ∀ others, slots.Perm others → (AllAccepted slots ↔ AllAccepted others) ∧
        (AllAccepted slots → ∀ key, (ofSlots others).find? key = (ofSlots slots).find? key) := by
  refine ⟨fun slot => ?_, size_ofSlots slots, fun others perm => ⟨?_, find?_ofSlots_perm perm⟩⟩
  · by_cases conflicts : Conflicts slots slot
    · rw [ofSlots_eq, attempt_of_conflict conflicts]
      exact ⟨conflicts, rfl, rfl⟩
    · rw [ofSlots_eq, ofSlots_eq, attempt_of_not_conflict conflicts]
      exact ⟨conflicts, rfl, rfl, rfl⟩
  · rw [allAccepted_iff, allAccepted_iff]
    exact ⟨fun consistent => consistent.perm perm, fun consistent => consistent.perm perm.symm⟩

/-- Two keys with the same name, one of them given a type only when it is declared again. -/
def roster : List Slot :=
  [.player "hp", (Slot.global "hp").typed .string, (Slot.player "hp").typed .long]

theorem declarations_settle_roster :
    (∃ error, (ofSlots roster).attempt ((Slot.player "hp").typed .double) = (.error error, ofSlots roster)) ∧
      (ofSlots roster).size = 2 ∧ AllAccepted roster.reverse ∧
      ∀ key, (ofSlots roster.reverse).find? key = (ofSlots roster).find? key := by
  obtain ⟨-, size, orders⟩ := declarations_settle roster
  have accepted : AllAccepted roster := by
    refine allAccepted_iff.mpr ?_
    unfold Consistent
    decide
  obtain ⟨any_order, same⟩ := orders roster.reverse (List.reverse_perm roster).symm
  exact ⟨⟨_, rfl⟩, size.trans (by decide), any_order.mp accepted, same accepted⟩

end Registry

end StatScript
