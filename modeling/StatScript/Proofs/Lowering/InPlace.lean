import StatScript.Lowering.Assignment
import StatScript.Proofs.Lowering.Arithmetic

/-!
# Modulo in place

The target is overwritten before its sign is corrected, so a divisor that is the target itself is read anew
then. It does no harm: a number leaves nothing when it is divided by itself, and nothing needs no correction.

Results:
1. `Emit.achieves_correctSign`: the correction takes the divisor off a negative target, and no conditional is
   needed for that.
2. `Emit.achieves_moduloInPlace`: the target is left with the remainder that is never negative.
3. `lower_assignOp_mod_run`: so it is when the lines of the assignment are run.
-/

namespace StatScript

/-! ## Cells -/

namespace Keeps

variable {temps temps' : Nat} {store later : Store}

theorem put (keeps : Keeps temps temps' store later) (cell : String) (number : Int64) :
    Keeps temps temps' (store.set cell number) (later.set cell number) := by
  intro other apart
  simp [keeps other apart]

/-- Only the last number put into a cell counts. -/
theorem put_put {cell : String} {first second : Int64}
    (keeps : Keeps temps temps' ((store.set cell first).set cell second) later) :
    Keeps temps temps' (store.set cell second) later := by
  intro other apart
  rw [keeps other apart]
  by_cases same : other = cell <;> simp [same]

end Keeps

/-- An operand that a change of a cell does not leave alone is that cell. -/
theorem Operand.read_set (operand : Operand) (store : Store) (cell : String) (number : Int64) :
    operand.read (store.set cell number) = operand.read store ∨
      ∀ store : Store, operand.read store = store.get cell := by
  have held (key : SlotKey) : (store.set cell number).get key.left = store.get key.left ∨
      ∀ store : Store, store.get key.left = store.get cell := by
    by_cases same : key.left = cell
    · exact .inr fun store => by rw [same]
    · exact .inl (by simp [same])
  cases operand with
  | slot slot => exact held slot.key
  | computed temp chain => exact held temp.slot.key
  | literal value => cases value <;> exact .inl rfl
  | placeholder text type => exact .inl rfl

/-! ## Code -/

namespace Emit

/-- What the correction makes of a number. -/
def corrected (number divisor : Int64) : Int64 :=
  number - (1 - signOf 1 false number) / 2 * divisor

/-- Within reach of the pivot, the divisor is taken off a negative number. -/
theorem corrected_eq {number : Int64} (above : -2 ^ 63 < number.toInt) (below : number.toInt < 2 ^ 62)
    (divisor : Int64) :
    corrected number divisor = if number.toInt < 0 then number - divisor else number := by
  have sign : signOf 1 false number = (if number.toInt < 0 then 0 else 1) * (1 * 2) - 1 :=
    congrArg (· * (1 * 2) - 1) (quotient_pivot above below)
  rw [corrected, sign]
  split_ifs
  · have one : ((1 : Int64) - (0 * (1 * 2) - 1)) / 2 = 1 := by decide
    rw [one, Int64.one_mul]
  · have none : ((1 : Int64) - (1 * (1 * 2) - 1)) / 2 = 0 := by decide
    rw [none, Int64.zero_mul, Int64.sub_zero]

section InPlace

variable {temps : Nat} {store : Store} {target : Slot} {divisor : Operand}

theorem achieves_correctSign (sound : target.key.Sound) (within : target.key.Within temps)
    (usable : divisor.Usable temps) :
    Achieves (correctSign target divisor) temps store fun _ temps' later => temps ≤ temps' ∧
      Keeps temps temps'
        (store.set target.left (corrected (store.get target.left) (divisor.read store))) later := by
  have long := Operand.usable_long
  have self : (Operand.slot target).Usable temps := Operand.usable_slot sound within
  refine (achieves_sign self 1 false).bind fun sign _ _ first => ?_
  refine (achieves_basic (long _ 1) first.usable rfl).bind fun twice _ _ next => ?_
  have second := first.behind next
  have two : (2 : Int64) ≠ 0 := by decide
  refine (achieves_basic second.usable (long _ 2) (calculate_div_eq_ok two)).bind
    fun negative _ _ next => ?_
  have third := second.behind next
  refine (achieves_basic third.usable (usable.mono third.grows) rfl).bind
    fun correction _ last next => ?_
  have fourth := third.behind next
  refine (achieves_change sound fourth.usable.readable rfl).imp ?_
  rintro _ _ _ ⟨rfl, rfl⟩
  have held : last.get target.left = store.get target.left := fourth.keeps.get_eq sound within
  have number : last.get target.left - correction.read last =
      corrected (store.get target.left) (divisor.read store) := by
    rw [held, fourth.read, third.read, second.read, first.read, usable.read_eq third.keeps]
    rfl
  rw [number]
  exact ⟨fourth.grows, fourth.keeps.put _ _⟩

theorem pos_of_isPositiveLiteral (positive : isPositiveLiteral divisor) :
    0 < (divisor.read store).toInt := by
  cases divisor with
  | literal value =>
      cases value with
      | long value => exact Int64.lt_iff_toInt_lt.mp (of_decide_eq_true positive)
      | double _ | text _ => cases positive
  | slot _ | computed _ _ | placeholder _ _ => cases positive

/-- The remainder with the sign of the divisor, corrected by what the divisor reads then, is never negative.
Where the divisor reads something else by then, it was the target. -/
theorem toInt_corrected {x d rest : Int64} (nonzero : d.toInt ≠ 0) (small : d.toInt.natAbs ≤ 2 ^ 62)
    (floor : rest.toInt = x.toInt.fmod d.toInt) {now : Int64} (same : now = d ∨ x = d) :
    (corrected rest now).toInt = x.toInt % d.toInt := by
  have bound := natAbs_fmod_lt x.toInt nonzero
  have least := Int.emod_nonneg x.toInt nonzero
  have most := Int.emod_lt x.toInt nonzero
  have euclid := emod_eq_fmod x.toInt nonzero
  rw [← floor] at bound euclid
  rw [corrected_eq (by omega) (by omega)]
  split_ifs at euclid ⊢ with negative
  · have apart : x ≠ d := by
      rintro rfl
      rw [Int.fmod_self] at floor
      omega
    obtain rfl := same.resolve_right apart
    have long : IsLong (rest.toInt - now.toInt) := isLong_of_natAbs (by omega)
    rw [euclid, ← long.toInt_ofInt, Int64.ofInt_sub, Int64.ofInt_toInt, Int64.ofInt_toInt]
  · exact euclid.symm

/-- The target is left with the remainder that is never negative, and nothing else but new temps changes. -/
theorem achieves_moduloInPlace (sound : target.key.Sound) (within : target.key.Within temps)
    (usable : divisor.Usable temps) (nonzero : (divisor.read store).toInt ≠ 0)
    (small : (divisor.read store).toInt.natAbs ≤ 2 ^ 62) :
    Achieves (moduloInPlace target divisor) temps store fun _ temps' later =>
      ∃ rest : Int64, rest.toInt = (store.get target.left).toInt % (divisor.read store).toInt ∧
        Keeps temps temps' (store.set target.left rest) later := by
  have self : (Operand.slot target).Usable temps := Operand.usable_slot sound within
  have nonzero' : divisor.read store ≠ 0 := fun zero => nonzero (congrArg Int64.toInt zero)
  refine (achieves_modulo self usable nonzero').bind fun rest temps₁ store₁ first => ?_
  have floor : (rest.read store₁).toInt =
      (store.get target.left).toInt.fmod (divisor.read store).toInt := by
    rw [first.read]
    exact toInt_modulo _ nonzero small
  have kept := first.keeps.put target.left (rest.read store₁)
  refine (achieves_change sound first.usable.readable rfl).bind ?_
  rintro _ temps₂ store₂ ⟨same, rfl⟩
  subst same
  split
  · next positive =>
      refine achieves_pure ⟨rest.read store₁, ?_, kept⟩
      rw [floor, Int.fmod_eq_emod_of_nonneg _ (Int.le_of_lt (pos_of_isPositiveLiteral positive))]
  · have within' : target.key.Within temps₂ := fun number temp =>
      Nat.le_trans (within number temp) first.grows
    refine (achieves_correctSign sound within' (usable.mono first.grows)).imp ?_
    rintro _ temps₃ later ⟨more, keeps⟩
    simp only [Store.get_set, if_true] at keeps
    -- The divisor is read behind the change of the target, so it may be the target with its new number.
    have aliased := (divisor.read_set store₁ target.left (rest.read store₁)).imp
      (fun unchanged => unchanged.trans (usable.read_eq first.keeps)) fun same => (same store).symm
    exact ⟨_, toInt_corrected nonzero small floor aliased,
      ((kept.put _ _).trans keeps first.grows more).put_put⟩

end InPlace

end Emit

/-! ## Lines -/

theorem Lowering.assignOp_mod_eq_ok {target : Slot} {divisor : Operand} {emit : Emit Unit}
    (lowered : Lowering.assignOp target .mod divisor = .ok emit) :
    emit = Emit.moduloInPlace target divisor := by
  obtain ⟨_, -, lowered⟩ := bind_eq_ok.mp lowered
  obtain ⟨_, -, lowered⟩ := bind_eq_ok.mp lowered
  obtain ⟨_, -, lowered⟩ := bind_eq_ok.mp lowered
  obtain ⟨_, -, lowered⟩ := bind_eq_ok.mp lowered
  exact (Except.ok.inj lowered).symm

/-- Running the lines of an in-place modulo, of which none is a conditional, leaves in the target the one
number that is not negative, below the size of the divisor and congruent to what the target held before.
Nothing else but the temps of these lines changes. The divisor may be the target itself. -/
theorem lower_assignOp_mod_run {context later : Context} {listing written : Listing} {target : Slot}
    {divisor : Operand} (sound : target.key.Sound) (within : target.key.Within context.temps)
    (usable : divisor.Usable context.temps)
    (lowered : context.lower listing (Lowering.assignOp target .mod divisor) = .ok ((), later, written)) :
    ∃ emitted, written = listing.extend emitted ∧ (∀ line ∈ emitted, ∃ kind, line.tag = .change kind) ∧
      ∀ store : Store, ∃ d : Int64, store.eval divisor = .ok d ∧ (0 < |d.toInt| → |d.toInt| ≤ 2 ^ 62 →
        ∃ store', store.run emitted = .ok store' ∧
          (∀ r : Int, r = (store'.get target.left).toInt ↔
            0 ≤ r ∧ r < |d.toInt| ∧ r ≡ (store.get target.left).toInt [ZMOD d.toInt]) ∧
          Keeps context.temps later.temps (store.set target.left (store'.get target.left)) store') := by
  obtain ⟨emit, accepted, -, rfl, rfl⟩ := Context.lower_eq_ok lowered
  obtain rfl := Lowering.assignOp_mod_eq_ok accepted
  refine ⟨_, rfl, ?_, ?_⟩
  · intro line member
    obtain ⟨_, changed, rfl⟩ := List.mem_map.mp member
    obtain ⟨change, -, rfl⟩ := List.mem_map.mp changed
    exact ⟨change.target.key.changeKind, rfl⟩
  intro store
  refine ⟨divisor.read store, Operand.resolve_right usable.readable store, fun positive small => ?_⟩
  have nonzero := abs_pos.mp positive
  rw [Int.abs_eq_natAbs] at small
  obtain ⟨store', performed, rest, remainder, keeps⟩ :=
    Emit.achieves_moduloInPlace sound within usable nonzero (by omega)
  have left : store'.get target.left = rest :=
    (keeps.get_eq sound within).trans (by simp [Slot.left])
  refine ⟨store', ?_, fun r => ?_, ?_⟩
  · simp [performed]
  · rw [left, remainder, eq_emod_iff _ _ nonzero]
  · rw [left]
    exact keeps

/-- The largest divisor, with its sign against it, and one of the least targets. -/
theorem lower_assignOp_mod_run_least :
    ∃ later emitted store',
      Context.lower { temps := 2 } { indent := 1 }
          (Lowering.assignOp (.player "x") .mod (.slot (.global "y"))) =
        .ok ((), later, Listing.extend { indent := 1 } emitted) ∧
      Store.run ⟨[("stat x", -9223372036854775807), ("globalstat y", -4611686018427387904)]⟩ emitted =
        .ok store' ∧
      (1 : Int) = (store'.get "stat x").toInt := by
  have sound : SlotKey.Sound (.player "x") := (by decide : SlotKey.Ordinary (.player "x")).toSound
  have sound' : SlotKey.Sound (.global "y") := (by decide : SlotKey.Ordinary (.global "y")).toSound
  obtain ⟨emitted, written, -, runs⟩ := @lower_assignOp_mod_run { temps := 2 } _ { indent := 1 } _
    (.player "x") (.slot (.global "y")) sound (fun _ => nofun)
    (Operand.usable_slot sound' fun _ => nofun) rfl
  obtain ⟨d, value, divides⟩ := runs
    ⟨[("stat x", -9223372036854775807), ("globalstat y", -4611686018427387904)]⟩
  obtain rfl : -4611686018427387904 = d := Except.ok.inj value
  obtain ⟨store', ran, unique, -⟩ := divides (by decide) (by decide)
  refine ⟨_, emitted, store', congrArg (fun listing => Except.ok ((), _, listing)) written, ran, ?_⟩
  exact (unique 1).mpr ⟨by decide, by decide, by decide⟩

end StatScript
