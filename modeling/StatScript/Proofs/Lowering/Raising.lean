import StatScript.Lowering.Power
import StatScript.Proofs.Lowering.Tree
import StatScript.Proofs.Machine.Wrapping

/-!
# Raising by squaring

A temp is squared until it stands at or just beyond the exponent, and then takes in or gives back a part that
is a power itself. Where nothing is divided the result is the wrapped power whatever its size. A division
needs a base that is not zero, and a temp that is squared beyond the exponent must still hold what it is
divided by.

Results:
1. `performAll_raising`, `performAll_stage`: what squaring and one part do.
2. `raises_square`, `raises_multiply`, `raises_divide`, `raises_divide_twice`: what the code of a power does,
   from what the code of its part does.
-/

namespace StatScript

namespace Code

variable (code : Code Operand)

/-- No change of the code divides. -/
def Undivided : Prop :=
  ∀ change ∈ code.changes, change.mode ≠ .combine .div

/-- No change of the code divides its result. -/
def Direct : Prop :=
  ∀ change ∈ code.changes, change.mode = .combine .div → code.result.slot? ≠ some change.target

instance : Decidable code.Undivided :=
  inferInstanceAs (Decidable (∀ change ∈ code.changes, _))

instance : Decidable code.Direct :=
  inferInstanceAs (Decidable (∀ change ∈ code.changes, _))

variable {code}

theorem Undivided.direct (undivided : code.Undivided) : code.Direct :=
  fun change member divides => absurd divides (undivided change member)

end Code

/-- Code behind `temps` temps for the power `n` of a base. Without divisions it leaves the wrapped power.
With divisions it is for powers that fit: it stops at a base of zero, and a result that is divided itself
is right only if the next power of two fits too. -/
structure Raises (base : Operand) (n temps : Nat) (code : Code Operand) : Prop where
  grows : temps ≤ code.temps
  result : code.result.Usable code.temps
  behind : ∀ change ∈ code.changes, ∃ number, temps < number ∧ change.target.key = .temp number
  run : ∀ {store : Store} {x : Int}, (base.read store).toInt = x →
    code.Undivided ∨ x ≠ 0 ∧ IsLong (x ^ n) →
      ∃ later, store.performAll code.changes = .ok later ∧ Keeps temps code.temps store later ∧
        (code.result.read later = Int64.ofInt (x ^ n) ↔
          code.Direct ∨ IsLong (x ^ 2 ^ (n.log2 + 1)))
  fault : ∀ {store : Store}, base.read store = 0 → ¬code.Undivided →
    store.performAll code.changes = .error .divisionByZero

theorem Keeps.mono {temps temps' less more : Nat} {store later : Store}
    (keeps : Keeps temps temps' store later) (le : less ≤ temps) (le' : temps' ≤ more) :
    Keeps less more store later :=
  fun cell other => keeps cell fun number least most =>
    other number (Nat.lt_of_le_of_lt le least) (Nat.le_trans most le')

namespace Raises

variable {base : Operand} {n temps temps' : Nat} {code : Code Operand}

/-- The temps of code that was not kept do no harm. -/
theorem spare (raises : Raises base n temps code) (le : code.temps ≤ temps') :
    Raises base n temps { code with temps := temps' } where
  grows := Nat.le_trans raises.grows le
  result := raises.result.mono le
  behind := raises.behind
  run same given := by
    obtain ⟨later, performed, keeps, exact⟩ := raises.run same given
    exact ⟨later, performed, keeps.mono (Nat.le_refl _) le, exact⟩
  fault := raises.fault

/-- Nor does code that was written before and not kept. -/
theorem later (raises : Raises base n temps' code) (le : temps ≤ temps') :
    Raises base n temps code where
  grows := Nat.le_trans le raises.grows
  result := raises.result
  behind change member := by
    obtain ⟨number, more, target⟩ := raises.behind change member
    exact ⟨number, Nat.lt_of_le_of_lt le more, target⟩
  run same given := by
    obtain ⟨later, performed, keeps, exact⟩ := raises.run same given
    exact ⟨later, performed, keeps.mono le (Nat.le_refl _), exact⟩
  fault := raises.fault

end Raises

/-- The power zero is one. -/
theorem raises_one (base : Operand) (temps : Nat) : Raises base 0 temps ⟨[], .ofLong 1, temps⟩ where
  grows := Nat.le_refl _
  result := Operand.usable_long temps 1
  behind := List.forall_mem_nil _
  run {store x} _ _ :=
    ⟨store, rfl, .refl _ _ _, iff_of_true (by rw [pow_zero]; rfl) (.inl (List.forall_mem_nil _))⟩
  fault _ divided := absurd (List.forall_mem_nil _) divided

/-- The base is its own first power. -/
theorem raises_base {base : Operand} {temps : Nat} (usable : base.Usable temps) :
    Raises base 1 temps ⟨[], base, temps⟩ where
  grows := Nat.le_refl _
  result := usable
  behind := List.forall_mem_nil _
  run {store x} same _ := by
    refine ⟨store, rfl, .refl _ _ _, iff_of_true ?_ (.inl (List.forall_mem_nil _))⟩
    rw [pow_one, ← same, Int64.ofInt_toInt]
  fault _ divided := absurd (List.forall_mem_nil _) divided

/-! ## Squaring -/

theorem Store.performAll_append_error {store : Store} {first : List Change} {fault : Fault}
    (failed : store.performAll first = .error fault) (second : List Change) :
    store.performAll (first ++ second) = .error fault := by
  induction first generalizing store with
  | nil => cases failed
  | cons change rest ih =>
      rw [performAll] at failed
      rw [List.cons_append, performAll]
      cases stepped : store.perform change.text with
      | error fault' =>
          rw [stepped] at failed
          exact failed
      | ok next =>
          rw [stepped] at failed
          exact ih failed

/-- Sets a temp to the base and squares it a number of times. -/
def raising (base : Operand) (temp : Temp) (squarings : Nat) : List Change :=
  { target := temp.slot, mode := .set, value := base, defining := true } ::
    List.replicate squarings { target := temp.slot, mode := .combine .mul, value := .slot temp.slot }

theorem raising_succ (base : Operand) (temp : Temp) (squarings : Nat) :
    raising base temp (squarings + 1) =
      raising base temp squarings ++ [⟨temp.slot, .combine .mul, .slot temp.slot, false⟩] := by
  rw [raising, List.replicate_succ', raising, List.cons_append]

@[simp]
theorem Emit.bind_apply {α β : Type} (first : Emit α) (next : α → Emit β) (temps : Nat) :
    (first >>= next) temps =
      { next (first temps).result (first temps).temps with
        changes := (first temps).changes ++ (next (first temps).result (first temps).temps).changes } :=
  rfl

theorem square_eq (temp : Temp) (times temps : Nat) :
    Emit.square temp times temps =
      ⟨List.replicate times ⟨temp.slot, .combine .mul, .slot temp.slot, false⟩, (), temps⟩ := by
  induction times with
  | zero => rfl
  | succ times ih => simp [Emit.square, Emit.combine, Emit.change, ih, List.replicate_succ]

theorem pow_two_pow_succ (x : Int) (k : Nat) : x ^ 2 ^ (k + 1) = x ^ 2 ^ k * x ^ 2 ^ k := by
  rw [← pow_add, ← Nat.two_mul, pow_succ']

/-- Squaring reaches the powers of two. -/
theorem performAll_raising {base : Operand} {temps : Nat} (usable : base.Usable temps)
    {temp : Temp} (number : temp.number = temps + 1) {store : Store} {x : Int}
    (same : (base.read store).toInt = x) (squarings : Nat) :
    ∃ later, store.performAll (raising base temp squarings) = .ok later ∧
      Keeps temps (temps + 1) store later ∧
      later.get temp.slot.left = Int64.ofInt (x ^ 2 ^ squarings) := by
  have sound : temp.slot.key.Sound := SlotKey.sound_temp temp.number
  have own (later : Store) (value : Int64) (keeps : Keeps temps (temps + 1) store later) :
      Keeps temps (temps + 1) store (later.set temp.slot.left value) := by
    have cell : temp.slot.left = (SlotKey.temp (temps + 1)).left := by rw [← number]; rfl
    rw [cell]
    exact keeps.set (Nat.lt_succ_self _) (Nat.le_refl _) value
  induction squarings with
  | zero =>
      have first : Change.Readable ⟨temp.slot, .set, base, true⟩ := ⟨sound, usable.readable⟩
      refine ⟨_, Store.performAll_cons (perform_eq_ok first rfl) [],
        own store _ (.refl _ _ _), ?_⟩
      simp [← same]
  | succ squarings ih =>
      obtain ⟨later, performed, keeps, held⟩ := ih
      have next : Change.Readable ⟨temp.slot, .combine .mul, .slot temp.slot, false⟩ := ⟨sound, sound⟩
      have product : Store.outcome (.combine .mul) (later.get temp.slot.left)
          (later.get temp.slot.left) = .ok (Int64.ofInt (x ^ 2 ^ (squarings + 1))) := by
        rw [held, pow_two_pow_succ, Int64.ofInt_mul]
        rfl
      refine ⟨_, ?_, own later _ keeps, by rw [Store.get_set, if_pos rfl]⟩
      rw [raising_succ, Store.performAll_append performed]
      exact Store.performAll_cons (perform_eq_ok next product) []

/-! ## One part -/

/-- Writes a part and combines its result into a temp. -/
def stage (temp : Temp) (op : BasicOp) (part : Code Operand) : List Change :=
  part.changes ++ [{ target := temp.slot, mode := .combine op, value := part.result }]

section Stage

variable {base : Operand} {temps m : Nat} {temp : Temp} {part : Code Operand} {store later : Store}

/-- The code of a part leaves the temp alone, and then its number goes into the temp. -/
theorem performAll_stage (raises : Raises base m (temps + 1) part) (number : temp.number = temps + 1)
    (keeps : Keeps temps (temps + 1) store later) {next : Store}
    (performed : later.performAll part.changes = .ok next)
    (keeps' : Keeps (temps + 1) part.temps later next) {op : BasicOp} {value : Int64}
    (calculated : Store.calculate op (later.get temp.slot.left) (part.result.read next) = .ok value) :
    ∃ last, later.performAll (stage temp op part) = .ok last ∧ Keeps temps part.temps store last ∧
      last.get temp.slot.left = value := by
  have sound : temp.slot.key.Sound := SlotKey.sound_temp temp.number
  have within : temp.slot.key.Within (temps + 1) := by
    rintro _ ⟨⟩
    exact Nat.le_of_eq number
  have readable : Change.Readable ⟨temp.slot, .combine op, part.result, false⟩ :=
    ⟨sound, raises.result.readable⟩
  have kept : next.get temp.slot.left = later.get temp.slot.left := keeps'.get_eq sound within
  have combined : Store.outcome (.combine op) (next.get temp.slot.left) (part.result.read next) =
      .ok value := by
    rw [kept]
    exact calculated
  refine ⟨next.set temp.slot.left value, ?_, ?_, ?_⟩
  · rw [stage, Store.performAll_append performed]
    exact Store.performAll_cons (perform_eq_ok readable combined) []
  · have cell : temp.slot.left = (SlotKey.temp (temps + 1)).left := by rw [← number]; rfl
    rw [cell]
    exact (keeps.trans keeps' (Nat.le_succ _) raises.grows).set (Nat.lt_succ_self _) raises.grows _
  · simp

/-- A part of a base of zero is zero, so dividing by it fails, if no division before it did. -/
theorem performAll_stage_error (raises : Raises base m (temps + 1) part) (positive : m ≠ 0)
    (zero : base.read later = 0) {op : BasicOp} (divides : op = .div ∨ ¬part.Undivided) :
    later.performAll (stage temp op part) = .error .divisionByZero := by
  by_cases undivided : part.Undivided
  · obtain rfl := divides.resolve_right (not_not_intro undivided)
    obtain ⟨next, performed, -, exact⟩ := raises.run (congrArg Int64.toInt zero) (.inl undivided)
    have read : part.result.read next = 0 := by
      rw [exact.mpr (.inl undivided.direct)]
      show Int64.ofInt (0 ^ m) = 0
      rw [zero_pow positive]
      rfl
    have readable : Change.Readable ⟨temp.slot, .combine .div, part.result, false⟩ :=
      ⟨SlotKey.sound_temp temp.number, raises.result.readable⟩
    rw [stage, Store.performAll_append performed, Store.performAll, perform_text readable]
    show ((Store.calculate .div _ (part.result.read next)).map _ >>= _) = _
    rw [read]
    rfl
  · exact Store.performAll_append_error (raises.fault zero undivided) _

end Stage

/-! ## The two ways -/

section Ways

variable {base : Operand} {temps n m k : Nat} {temp : Temp} {part : Code Operand}
  {operation : Operation}

theorem mem_raising {change : Change} (member : change ∈ raising base temp k) :
    change.target = temp.slot ∧ change.mode ≠ .combine .div := by
  rcases List.mem_cons.mp member with rfl | member
  · exact ⟨rfl, nofun⟩
  · obtain rfl := List.eq_of_mem_replicate member
    exact ⟨rfl, nofun⟩

theorem mem_stage {op : BasicOp} {change : Change} (member : change ∈ stage temp op part) :
    change ∈ part.changes ∨ change = ⟨temp.slot, .combine op, part.result, false⟩ := by
  rcases List.mem_append.mp member with member | member
  · exact .inl member
  · exact .inr (List.mem_singleton.mp member)

/-- A power of two is reached by squaring alone. -/
theorem raises_square (usable : base.Usable temps) (number : temp.number = temps + 1)
    (exponent : n = 2 ^ k) :
    Raises base n temps ⟨raising base temp k, Emit.result temp operation [base], temps + 1⟩ where
  grows := Nat.le_succ _
  result := Operand.usable_computed (Nat.le_of_eq number) _
  behind change member := by
    refine ⟨temps + 1, Nat.lt_succ_self _, ?_⟩
    rw [(mem_raising member).1, ← number]
    rfl
  run {store x} same _ := by
    obtain ⟨later, performed, keeps, held⟩ := performAll_raising usable number same k
    refine ⟨later, performed, keeps, iff_of_true ?_ (.inl ?_)⟩
    · rw [exponent]
      exact held
    · exact fun change member divides => absurd divides (mem_raising member).2
  fault _ divided := absurd (fun change member => (mem_raising member).2) divided

theorem behind_stage (number : temp.number = temps + 1) (raises : Raises base m (temps + 1) part)
    (op : BasicOp) {change : Change} (member : change ∈ raising base temp k ++ stage temp op part) :
    ∃ number, temps < number ∧ change.target.key = .temp number := by
  rcases List.mem_append.mp member with member | member
  · refine ⟨temps + 1, Nat.lt_succ_self _, ?_⟩
    rw [(mem_raising member).1, ← number]
    rfl
  rcases mem_stage member with member | rfl
  · obtain ⟨other, more, target⟩ := raises.behind change member
    exact ⟨other, Nat.lt_of_succ_lt more, target⟩
  · refine ⟨temps + 1, Nat.lt_succ_self _, ?_⟩
    rw [← number]
    rfl

/-- A base of zero reaches the part, and the part or the division by it fails. -/
theorem fault_stage (usable : base.Usable temps) (number : temp.number = temps + 1)
    (raises : Raises base m (temps + 1) part) (positive : m ≠ 0) (op : BasicOp)
    (divides : op = .div ∨ ¬part.Undivided) {store : Store} (zero : base.read store = 0)
    (rest : List Change) :
    store.performAll (raising base temp k ++ (stage temp op part ++ rest)) =
      .error .divisionByZero := by
  obtain ⟨later, performed, keeps, -⟩ := performAll_raising usable number rfl k
  have zero' : base.read later = 0 := (usable.read_eq keeps).trans zero
  rw [Store.performAll_append performed]
  exact Store.performAll_append_error (performAll_stage_error raises positive zero' divides) rest

/-- The part has temps of its own, so a product is not divided. -/
theorem direct_multiply (number : temp.number = temps + 1) (raises : Raises base m (temps + 1) part) :
    Code.Direct
      ⟨raising base temp k ++ stage temp .mul part, Emit.result temp operation [base], part.temps⟩ := by
  intro change member divides same
  have target : change.target = temp.slot := (Option.some.inj same).symm
  rcases List.mem_append.mp member with member | member
  · exact (mem_raising member).2 divides
  rcases mem_stage member with member | rfl
  · obtain ⟨other, more, key⟩ := raises.behind change member
    rw [target] at key
    obtain rfl : temp.number = other := SlotKey.temp.inj key
    omega
  · cases divides

/-- The part that is multiplied in is a smaller power. Its own divisions stay below the last power of two,
so they are exact. -/
theorem raises_multiply (usable : base.Usable temps) (number : temp.number = temps + 1)
    (raises : Raises base m (temps + 1) part) (positive : m ≠ 0) (small : m < 2 ^ k)
    (exponent : n = 2 ^ k + m) :
    Raises base n temps
      ⟨raising base temp k ++ stage temp .mul part, Emit.result temp operation [base], part.temps⟩ where
  grows := Nat.le_trans (Nat.le_succ _) raises.grows
  result := Operand.usable_computed (Nat.le_trans (Nat.le_of_eq number) raises.grows) _
  behind _ member := behind_stage number raises .mul member
  run {store x} same given := by
    obtain ⟨later, performed, keeps, held⟩ := performAll_raising usable number same k
    have same' : (base.read later).toInt = x := by rw [usable.read_eq keeps, same]
    have next : 2 ^ (m.log2 + 1) ≤ n := by
      have below : m.log2 + 1 ≤ k := (Nat.log2_lt positive).mpr small
      have le : 2 ^ (m.log2 + 1) ≤ 2 ^ k := Nat.pow_le_pow_right (by decide) below
      omega
    obtain ⟨given', fits⟩ : (part.Undivided ∨ x ≠ 0 ∧ IsLong (x ^ m)) ∧
        (part.Direct ∨ IsLong (x ^ 2 ^ (m.log2 + 1))) := by
      rcases given with undivided | ⟨nonzero, long⟩
      · have undivided' : part.Undivided := fun change member =>
          undivided change (List.mem_append_right _ (List.mem_append_left _ member))
        exact ⟨.inl undivided', .inl undivided'.direct⟩
      · exact ⟨.inr ⟨nonzero, long.pow nonzero (by omega)⟩, .inr (long.pow nonzero next)⟩
    obtain ⟨middle, performed', keeps', exact⟩ := raises.run same' given'
    have product : Store.calculate .mul (later.get temp.slot.left) (part.result.read middle) =
        .ok (Int64.ofInt (x ^ n)) := by
      rw [held, exact.mpr fits, exponent, pow_add, Int64.ofInt_mul]
      rfl
    obtain ⟨last, performed'', keeps'', held'⟩ :=
      performAll_stage raises number keeps performed' keeps' product
    refine ⟨last, ?_, keeps'', iff_of_true held' (.inl ?_)⟩
    · rw [Store.performAll_append performed, performed'']
    · exact direct_multiply number raises
  fault {store} zero divided := by
    have divides : ¬part.Undivided := fun undivided => divided fun change member => by
      rcases List.mem_append.mp member with member | member
      · exact (mem_raising member).2
      rcases mem_stage member with member | rfl
      · exact undivided change member
      · exact nofun
    have failed := fault_stage (k := k) usable number raises positive .mul (.inr divides) zero []
    rwa [List.append_nil] at failed

theorem calculate_div (a : Int64) {d : Int} (long : IsLong d) (nonzero : d ≠ 0) :
    Store.calculate .div a (Int64.ofInt d) = .ok (a / Int64.ofInt d) := by
  refine if_neg fun zero => nonzero ?_
  rw [← long.toInt_ofInt, zero]
  rfl

/-- Code that ends with a division of its result. -/
theorem divided_stage (changes : List Change) (temps : Nat) :
    ¬Code.Direct ⟨changes ++ stage temp .div part, Emit.result temp operation [base], temps⟩ := by
  intro direct
  have last : (⟨temp.slot, .combine .div, part.result, false⟩ : Change) ∈
      changes ++ stage temp .div part := by
    simp [stage]
  exact direct _ last rfl rfl

/-- The part that is divided out is a power that fits, but the temp may have been squared too far. -/
theorem raises_divide (usable : base.Usable temps) (number : temp.number = temps + 1)
    (raises : Raises base m (temps + 1) part) (positive : m ≠ 0)
    (small : m < 2 ^ n.log2 ∨ m = 2 ^ n.log2 ∧ part.Direct) (exponent : n + m = 2 ^ (n.log2 + 1)) :
    Raises base n temps
      ⟨raising base temp (n.log2 + 1) ++ stage temp .div part, Emit.result temp operation [base],
        part.temps⟩ where
  grows := Nat.le_trans (Nat.le_succ _) raises.grows
  result := Operand.usable_computed (Nat.le_trans (Nat.le_of_eq number) raises.grows) _
  behind _ member := behind_stage number raises .div member
  run {store x} same given := by
    obtain ⟨nonzero, long⟩ := given.resolve_left fun undivided =>
      divided_stage _ _ undivided.direct
    obtain ⟨later, performed, keeps, held⟩ := performAll_raising usable number same (n.log2 + 1)
    have same' : (base.read later).toInt = x := by rw [usable.read_eq keeps, same]
    have least : 2 ^ n.log2 ≤ n := by
      rw [pow_succ] at exponent
      omega
    have le : m ≤ n := by omega
    have long' : IsLong (x ^ m) := long.pow nonzero le
    have fits : part.Direct ∨ IsLong (x ^ 2 ^ (m.log2 + 1)) := by
      rcases small with small | ⟨-, direct⟩
      · have below : m.log2 + 1 ≤ n.log2 := (Nat.log2_lt positive).mpr small
        have next : 2 ^ (m.log2 + 1) ≤ 2 ^ n.log2 := Nat.pow_le_pow_right (by decide) below
        exact .inr (long.pow nonzero (Nat.le_trans next least))
      · exact .inl direct
    obtain ⟨middle, performed', keeps', exact⟩ := raises.run same' (.inr ⟨nonzero, long'⟩)
    have quotient := calculate_div (later.get temp.slot.left) long' (pow_ne_zero m nonzero)
    rw [← exact.mpr fits] at quotient
    obtain ⟨last, performed'', keeps'', held'⟩ :=
      performAll_stage raises number keeps performed' keeps' quotient
    refine ⟨last, ?_, keeps'', ?_⟩
    · rw [Store.performAll_append performed, performed'']
    show last.get temp.slot.left = _ ↔ _
    rw [held', held, exact.mpr fits, ← exponent, ofInt_pow_div_iff nonzero long le positive]
    exact (or_iff_right (divided_stage _ _)).symm
  fault {store} zero _ := by
    have failed := fault_stage (k := n.log2 + 1) usable number raises positive .div (.inl rfl) zero []
    rwa [List.append_nil] at failed

theorem performAll_divide_base (usable : base.Usable temps) (number : temp.number = temps + 1)
    {store later : Store} {x : Int} (same : (base.read store).toInt = x) (nonzero : x ≠ 0)
    (keeps : Keeps temps (temps + 1) store later) :
    ∃ last, later.performAll (stage temp .div ⟨[], base, temps + 1⟩) = .ok last ∧
      Keeps temps (temps + 1) store last ∧
      last.get temp.slot.left = later.get temp.slot.left / Int64.ofInt x := by
  have long : IsLong x := same ▸ isLong_toInt _
  have read : base.read later = Int64.ofInt x := by
    rw [usable.read_eq keeps, ← same, Int64.ofInt_toInt]
  have quotient := calculate_div (later.get temp.slot.left) long nonzero
  rw [← read] at quotient ⊢
  exact performAll_stage (raises_base (usable.mono (Nat.le_succ temps))) number keeps rfl
    (.refl _ _ _) quotient

/-- The square of the base is divided out as the base, twice. -/
theorem raises_divide_twice (usable : base.Usable temps) (number : temp.number = temps + 1)
    (positive : n ≠ 0) (exponent : n + 2 = 2 ^ (n.log2 + 1)) :
    Raises base n temps
      ⟨raising base temp (n.log2 + 1) ++
          (stage temp .div ⟨[], base, temps + 1⟩ ++ stage temp .div ⟨[], base, temps + 1⟩),
        Emit.result temp operation [base], temps + 1⟩ where
  grows := Nat.le_succ _
  result := Operand.usable_computed (Nat.le_of_eq number) _
  behind change member := by
    have first := raises_base (usable.mono (Nat.le_succ temps))
    rcases List.mem_append.mp member with member | member
    · exact behind_stage number first .div (List.mem_append_left _ member)
    · have member' := (List.mem_append.mp member).elim id id
      exact behind_stage (k := 0) number first .div (List.mem_append_right _ member')
  run {store x} same given := by
    have divided : ¬Code.Direct ⟨raising base temp (n.log2 + 1) ++
        (stage temp .div ⟨[], base, temps + 1⟩ ++ stage temp .div ⟨[], base, temps + 1⟩),
        Emit.result temp operation [base], temps + 1⟩ := by
      rw [← List.append_assoc]
      exact divided_stage _ _
    obtain ⟨nonzero, long⟩ := given.resolve_left fun undivided => divided undivided.direct
    have least : 2 ≤ n := by
      have le := Nat.log2_self_le positive
      rw [pow_succ] at exponent
      omega
    obtain ⟨later, performed, keeps, held⟩ := performAll_raising usable number same (n.log2 + 1)
    obtain ⟨middle, performed', keeps', held'⟩ :=
      performAll_divide_base usable number same nonzero keeps
    obtain ⟨last, performed'', keeps'', held''⟩ :=
      performAll_divide_base usable number same nonzero keeps'
    refine ⟨last, ?_, keeps'', ?_⟩
    · rw [Store.performAll_append performed, Store.performAll_append performed', performed'']
    show last.get temp.slot.left = _ ↔ _
    rw [held'', held', held, ← exponent, ofInt_pow_div_div_iff nonzero long least]
    exact (or_iff_right divided).symm
  fault {store} zero _ :=
    fault_stage (k := n.log2 + 1) usable number (raises_base (usable.mono (Nat.le_succ temps)))
      Nat.one_ne_zero .div (.inl rfl) zero _

end Ways

end StatScript
