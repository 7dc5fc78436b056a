import StatScript.Proofs.Lowering.Power
import StatScript.Proofs.Machine.Remainder

/-!
# The numbers of arithmetic code

Modulo, sign and absolute value are chains of basic operations, and each link reads what earlier ones left.
So code is followed link by link: it runs from given cells without a fault, and the rest is followed from the
cells that it leaves.

Results:
1. `Emit.Achieves.bind`: code behind code.
2. `Emit.achieves_remainder`, `Emit.achieves_modulo`: the numbers that remainder and modulo leave, exactly and
   for all operands.
3. `Emit.achieves_sign`: the number that the sign leaves.
4. `Emit.Achieves.leaves`: so it is when the lines of the code are run.
-/

namespace StatScript

namespace Emit

/-! ## Running code -/

/-- The code runs from given cells without a fault, and achieves what is said of its result, of the temps
handed out by then and of the cells that it leaves. -/
def Achieves {α : Type} (emit : Emit α) (temps : Nat) (store : Store)
    (gives : α → Nat → Store → Prop) : Prop :=
  ∃ later, store.performAll (emit temps).changes = .ok later ∧
    gives (emit temps).result (emit temps).temps later

section Running

variable {α β : Type} {temps : Nat} {store : Store}

theorem achieves_pure {result : α} {gives : α → Nat → Store → Prop} (given : gives result temps store) :
    Achieves (pure result) temps store gives :=
  ⟨store, rfl, given⟩

theorem Achieves.bind {emit : Emit α} {next : α → Emit β} {gives : α → Nat → Store → Prop}
    {gives' : β → Nat → Store → Prop} (achieves : Achieves emit temps store gives)
    (achieves' : ∀ result temps' later, gives result temps' later →
      Achieves (next result) temps' later gives') : Achieves (emit >>= next) temps store gives' := by
  obtain ⟨middle, performed, given⟩ := achieves
  obtain ⟨later, performed', given'⟩ := achieves' _ _ middle given
  refine ⟨later, ?_, given'⟩
  rw [bind_apply, Store.performAll_append performed, performed']

theorem Achieves.imp {emit : Emit α} {gives gives' : α → Nat → Store → Prop}
    (achieves : Achieves emit temps store gives)
    (given : ∀ result temps' later, gives result temps' later → gives' result temps' later) :
    Achieves emit temps store gives' := by
  obtain ⟨later, performed, held⟩ := achieves
  exact ⟨later, performed, given _ _ later held⟩

theorem achieves_change {target : Slot} {mode : Mode} {value : Operand} {number : Int64}
    (sound : target.key.Sound) (readable : value.Readable)
    (result : Store.outcome mode (store.get target.left) (value.read store) = .ok number) :
    Achieves (change target mode value) temps store
      fun _ temps' later => temps' = temps ∧ later = store.set target.left number := by
  have written : Change.Readable { target, mode, value } := ⟨sound, readable⟩
  exact ⟨_, Store.performAll_cons (perform_eq_ok written result) [], rfl, rfl⟩

end Running

/-! ## Results -/

/-- The result has a number, and nothing but new temps has changed. -/
structure Yields (temps : Nat) (store : Store) (number : Int64) (result : Operand) (temps' : Nat)
    (later : Store) : Prop where
  grows : temps ≤ temps'
  usable : result.Usable temps'
  keeps : Keeps temps temps' store later
  read : result.read later = number

theorem Yields.behind {temps temps' temps'' : Nat} {store middle later : Store} {number number' : Int64}
    {first second : Operand} (yields : Yields temps store number first temps' middle)
    (yields' : Yields temps' middle number' second temps'' later) :
    Yields temps store number' second temps'' later :=
  ⟨Nat.le_trans yields.grows yields'.grows, yields'.usable,
    yields.keeps.trans yields'.keeps yields.grows yields'.grows, yields'.read⟩

/-- Another label changes neither what may be read nor the number. -/
theorem Yields.relabel {temps temps' : Nat} {store later : Store} {number : Int64} {result : Operand}
    (yields : Yields temps store number result temps' later) (operation : Operation)
    (operands : List Operand) :
    Yields temps store number (Emit.relabel result operation operands) temps' later := by
  cases result with
  | computed temp chain =>
      exact ⟨yields.grows, ⟨trivial, yields.usable.within⟩, yields.keeps, yields.read⟩
  | slot _ | literal _ | placeholder _ _ => exact yields

section Results

variable {temps : Nat} {store : Store} {left right value : Operand}

theorem achieves_basic {op : BasicOp} {number : Int64} (usable : left.Usable temps)
    (usable' : right.Usable temps)
    (calculated : Store.calculate op (left.read store) (right.read store) = .ok number) :
    Achieves (basic op left right) temps store (Yields temps store number) := by
  have computes := computes_basic op usable usable'
  obtain ⟨later, performed, keeps, read⟩ := computes.run store number calculated
  exact ⟨later, performed, computes.grows, computes.result, keeps, read⟩

theorem calculate_div_eq_ok {a b : Int64} (nonzero : b ≠ 0) : Store.calculate .div a b = .ok (a / b) :=
  if_neg nonzero

/-! ## Modulo -/

/-- The quotient is multiplied back and taken off, which leaves the remainder of the machine's division. -/
theorem achieves_remainder (usable : left.Usable temps) (usable' : right.Usable temps)
    (nonzero : right.read store ≠ 0) :
    Achieves (remainder left right) temps store
      (Yields temps store (left.read store % right.read store)) := by
  refine (achieves_basic usable usable' (calculate_div_eq_ok nonzero)).bind
    fun quotient temps₁ store₁ first => ?_
  have divisor := usable'.read_eq first.keeps
  refine (achieves_basic first.usable (usable'.mono first.grows) rfl).bind
    fun product temps₂ store₂ second => ?_
  have both := first.behind second
  refine (achieves_basic (usable.mono both.grows) both.usable rfl).imp fun _ _ _ third => ?_
  have number : left.read store₂ - product.read store₂ = left.read store % right.read store := by
    rw [usable.read_eq both.keeps, both.read, first.read, divisor, sub_div_mul]
  exact number ▸ both.behind third

/-- The remainder is moved by the divisor, which may wrap, and taken once more. -/
theorem achieves_modulo (usable : left.Usable temps) (usable' : right.Usable temps)
    (nonzero : right.read store ≠ 0) :
    Achieves (modulo left right) temps store (Yields temps store
      ((left.read store % right.read store + right.read store) % right.read store)) := by
  refine (achieves_remainder usable usable' nonzero).bind fun raw temps₁ store₁ first => ?_
  refine (achieves_basic first.usable (usable'.mono first.grows) rfl).bind
    fun moved temps₂ store₂ second => ?_
  have both := first.behind second
  have divisor : right.read store₂ = right.read store := usable'.read_eq both.keeps
  refine (achieves_remainder both.usable (usable'.mono both.grows) (divisor ▸ nonzero)).bind
    fun rest temps₃ store₃ third => ?_
  refine achieves_pure (Yields.relabel ?_ _ _)
  have number : moved.read store₂ % right.read store₂ =
      (left.read store % right.read store + right.read store) % right.read store := by
    rw [both.read, first.read, usable'.read_eq first.keeps, divisor]
  exact number ▸ both.behind third

/-! ## Sign -/

/-- The temp handed out by this code has a number, and nothing else has changed. -/
structure Collects (temps : Nat) (store : Store) (temp : Temp) (number : Int64) (temps' : Nat)
    (later : Store) : Prop where
  own : temp.number = temps + 1
  single : temps' = temps + 1
  keeps : Keeps temps temps' store later
  get : later.get temp.slot.left = number

theorem achieves_define (usable : value.Usable temps) (type : ValueType) :
    Achieves (define value type) temps store
      fun temp => Collects temps store temp (value.read store) := by
  let temp : Temp := { number := temps + 1, type }
  have readable : Change.Readable ⟨temp.slot, .set, value, true⟩ :=
    ⟨SlotKey.sound_temp (temps + 1), usable.readable⟩
  refine ⟨store.set temp.slot.left (value.read store),
    Store.performAll_cons (perform_eq_ok readable rfl) [], rfl, rfl, ?_, ?_⟩
  · exact (Keeps.refl _ _ _).set (Nat.lt_succ_self _) (Nat.le_refl _) _
  · show (store.set temp.slot.left (value.read store)).get temp.slot.left = value.read store
    simp

/-- A temp takes in a constant. -/
theorem achieves_combine {op : BasicOp} {temp : Temp} {number next constant : Int64} {temps' : Nat}
    {later : Store} (collects : Collects temps store temp number temps' later)
    (calculated : Store.calculate op number constant = .ok next) :
    Achieves (combine temp op (.ofLong constant)) temps' later
      fun _ => Collects temps store temp next := by
  obtain ⟨own, rfl, keeps, get⟩ := collects
  have result : Store.outcome (.combine op) (later.get temp.slot.left)
      ((Operand.ofLong constant).read later) = .ok next := by
    rw [get]
    exact calculated
  have readable : (Operand.ofLong constant).Readable := trivial
  refine (achieves_change (SlotKey.sound_temp temp.number) readable result).imp ?_
  rintro _ _ _ ⟨rfl, rfl⟩
  refine ⟨own, rfl, ?_, by simp⟩
  have cell : temp.slot.left = (SlotKey.temp (temps + 1)).left := by
    rw [← own]
    rfl
  rw [cell]
  exact keeps.set (Nat.lt_succ_self _) (Nat.le_refl _) next

theorem achieves_halve {temp : Temp} {number : Int64} {temps' : Nat} {later : Store}
    (collects : Collects temps store temp number temps' later) (huge : Bool) :
    Achieves (halve huge temp) temps' later
      fun _ => Collects temps store temp (if huge then number / 2 else number) := by
  cases huge with
  | true => exact achieves_combine collects (calculate_div_eq_ok (by decide))
  | false => exact achieves_pure collects

/-- What the code of the sign makes of a number. -/
def signOf (scale : Int64) (huge : Bool) (number : Int64) : Int64 :=
  ((if huge then number / 2 else number) + pivot) / pivot * (scale * 2) - scale

theorem achieves_sign (usable : value.Usable temps) (scale : Int64) (huge : Bool) :
    Achieves (sign value scale huge) temps store
      (Yields temps store (signOf scale huge (value.read store))) := by
  refine (achieves_define usable .long).bind fun temp _ _ first => ?_
  refine (achieves_halve first huge).bind fun _ _ _ second => ?_
  refine (achieves_combine second rfl).bind fun _ _ _ third => ?_
  refine (achieves_combine third (calculate_div_eq_ok (by decide))).bind fun _ _ _ fourth => ?_
  refine (achieves_combine fourth rfl).bind fun _ _ _ fifth => ?_
  refine (achieves_combine fifth rfl).bind fun _ _ _ last => achieves_pure ?_
  refine ⟨?_, Operand.usable_computed ?_ _, last.keeps, last.get⟩
  · rw [last.single]
    exact Nat.le_succ temps
  · rw [last.single, last.own]

end Results

end Emit

/-! ## Lines -/

/-- Running lines from given cells leaves a number in an operand. -/
def Store.Leaves (store : Store) (lines : List Line) (operand : Operand) (number : Int) : Prop :=
  ∃ later value, store.run lines = .ok later ∧ later.eval operand = .ok value ∧ value.toInt = number

/-- A run has one result. -/
theorem Store.Leaves.iff_eq {store : Store} {lines : List Line} {operand : Operand} {number : Int}
    (leaves : store.Leaves lines operand number) (other : Int) :
    store.Leaves lines operand other ↔ number = other := by
  constructor
  · rintro ⟨later', value', ran', read', rfl⟩
    obtain ⟨later, value, ran, read, rfl⟩ := leaves
    obtain rfl : later = later' := Except.ok.inj (ran.symm.trans ran')
    rw [Except.ok.inj (read.symm.trans read')]
  · rintro rfl
    exact leaves

/-- What code achieves is left by its lines, at any depth. -/
theorem Emit.Achieves.leaves {emit : Emit Operand} {temps : Nat} {store : Store} {number : Int64}
    (achieves : Achieves emit temps store (Yields temps store number)) (indent : Nat) :
    store.Leaves (Draft.changeLines indent (emit temps).changes) (emit temps).result number.toInt := by
  obtain ⟨later, performed, yields⟩ := achieves
  refine ⟨later, number, ?_, ?_, rfl⟩
  · simp [performed]
  · rw [← yields.read]
    exact Operand.resolve_right yields.usable.readable later

/-- An operation that is accepted writes its code at the end of the listing. -/
theorem Context.lower_of_eq_ok {α : Type} {lowering : Except LoweringError (Emit α)} {emit : Emit α}
    (accepted : lowering = .ok emit) (context : Context) (listing : Listing) :
    context.lower listing lowering =
      .ok ((emit context.temps).result, { context with temps := (emit context.temps).temps },
        listing.extend (Draft.changeLines listing.indent (emit context.temps).changes)) := by
  rw [accepted]
  rfl

/-- An operand has the number that it is evaluated to. -/
theorem Operand.Usable.read_of_eval {operand : Operand} {temps : Nat} {store : Store} {number : Int64}
    (usable : operand.Usable temps) (evaluated : store.eval operand = .ok number) :
    operand.read store = number :=
  Except.ok.inj ((Operand.resolve_right usable.readable store).symm.trans evaluated)

/-- An operand that the machine can read passes the check for infinite literals. -/
theorem Operand.Usable.finite {operand : Operand} {temps : Nat} (usable : operand.Usable temps) :
    Check.finite operand = .ok () := by
  have readable := usable.readable
  cases operand with
  | literal value =>
      cases value with
      | long _ => rfl
      | double _ | text _ => cases readable
  | slot _ | computed _ _ | placeholder _ _ => rfl

/-- An operand that is not declared to be a string passes the check for numbers. -/
theorem Check.numeric_eq_ok {operand : Operand} (numeric : operand.type ≠ .string) (operation : String) :
    Check.numeric operation operand = .ok () :=
  if_neg numeric

end StatScript
