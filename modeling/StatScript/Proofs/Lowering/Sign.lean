import StatScript.Proofs.Lowering.Arithmetic
import StatScript.Proofs.Lowering.Atomic

/-!
# Sign and absolute value

The sign is taken without a conditional: a number is moved up by `2 ^ 62` and divided by it, which leaves one or
zero as long as the sum stays within 64 bits and above minus the pivot. A number that may be larger is halved
before. Halving goes toward zero, so it loses the sign of minus one.

Results:
1. `Emit.signOf_of_inReach`, `Emit.signOf_one_beyond`: what the code of the sign makes of a number, within
   reach of the pivot and beyond.
2. `Emit.signOf_huge`: what it makes of a number that is halved before.
3. `lower_sign_abs_exact`: running the emitted lines leaves the sign and the absolute value, just within reach.
4. `lower_sign_huge_exact_iff`: the halved sign is right for all numbers but minus one.
-/

namespace StatScript

namespace Emit

/-! ## Numbers -/

/-- The numbers that stay within 64 bits, and above minus the pivot, when they are moved up by the pivot. -/
def InReach (number : Int64) : Prop :=
  -2 ^ 63 < number.toInt ∧ number.toInt < 2 ^ 62

instance (number : Int64) : Decidable (InReach number) :=
  inferInstanceAs (Decidable (_ ∧ _))

variable {x scale : Int64}

/-- Zero and one become minus and plus the scale. -/
theorem scaled_eq (scale : Int64) (negative : Prop) [Decidable negative] :
    (if negative then 0 else 1) * (scale * 2) - scale = if negative then -scale else scale := by
  split <;> grind

/-- Minus the scale is exact where twice the scale fits. -/
theorem toInt_signed (fits : IsLong (2 * scale.toInt)) (negative : Prop) [Decidable negative] :
    (if negative then -scale else scale).toInt = if negative then -scale.toInt else scale.toInt := by
  rw [isLong_iff] at fits
  split
  · rw [Int64.toInt_neg, Int.bmod_eq_emod]
    split <;> omega
  · rfl

/-- Within reach of the pivot the code of the sign makes plus or minus the scale. -/
theorem signOf_of_inReach (reach : InReach x) (scale : Int64) :
    signOf scale false x = if x.toInt < 0 then -scale else scale := by
  have quotient := quotient_pivot reach.1 reach.2
  rw [← scaled_eq, ← quotient]
  rfl

/-- Beyond it, the scale one gives minus three or minus five. -/
theorem signOf_one_beyond (beyond : ¬InReach x) :
    (signOf 1 false x).toInt = -3 ∨ (signOf 1 false x).toInt = -5 := by
  have least := x.le_toInt
  have outside : x.toInt = -2 ^ 63 ∨ 2 ^ 62 ≤ x.toInt := by
    unfold InReach at beyond
    omega
  have sign : signOf 1 false x = (x + pivot) / pivot * (1 * 2) - 1 := rfl
  rcases quotient_pivot_beyond outside with one | two
  · rw [sign, one]
    decide
  · rw [sign, two]
    decide

/-- Every number is in reach once it is halved, but minus one is not negative any more. -/
theorem signOf_huge (scale x : Int64) :
    signOf scale true x = if x.toInt < -1 then -scale else scale := by
  have half : (x / 2).toInt = x.toInt / 2 + if 0 ≤ x.toInt ∨ 2 ∣ x.toInt then 0 else 1 :=
    (Int64.toInt_div_of_ne_right x 2 (by decide)).trans Int.tdiv_eq_ediv
  have least := x.le_toInt
  have most := x.toInt_lt
  have reach : InReach (x / 2) := by
    unfold InReach
    split_ifs at half <;> omega
  -- Halving goes toward zero, where it takes minus one and no other negative number.
  have negative : (x / 2).toInt < 0 ↔ x.toInt < -1 := by
    split_ifs at half <;> omega
  have sign : signOf scale true x = signOf scale false (x / 2) := rfl
  rw [sign, signOf_of_inReach reach]
  simp only [negative]

/-- A number times its sign is its absolute value. -/
theorem toInt_mul_sign (above : -2 ^ 63 < x.toInt) :
    (x * if x.toInt < 0 then -1 else 1).toInt = |x.toInt| := by
  have most := x.toInt_lt
  split_ifs with negative
  · have mirrored : x * -1 = -x := by grind
    rw [mirrored, Int64.toInt_neg, abs_of_neg negative, Int.bmod_eq_emod]
    split <;> omega
  · rw [Int64.mul_one, abs_of_nonneg (Int.not_lt.mp negative)]

/-! ## Code -/

section Abs

variable {temps : Nat} {store : Store} {value : Operand} {known : Option Operand}

/-- A sign that was lowered before has the number of one that is lowered now. -/
theorem achieves_knownSign (usable : value.Usable temps) (usable' : ∀ sign ∈ known, sign.Usable temps)
    (signed : ∀ sign ∈ known, sign.read store = signOf 1 false (value.read store)) :
    Achieves (knownSign value known) temps store
      (Yields temps store (signOf 1 false (value.read store))) := by
  cases known with
  | none => exact achieves_sign usable 1 false
  | some sign =>
      exact achieves_pure ⟨Nat.le_refl _, usable' sign rfl, .refl _ _ _, signed sign rfl⟩

/-- The absolute value is the product with the sign. -/
theorem achieves_abs (usable : value.Usable temps) (usable' : ∀ sign ∈ known, sign.Usable temps)
    (signed : ∀ sign ∈ known, sign.read store = signOf 1 false (value.read store)) :
    Achieves (abs value known) temps store
      (Yields temps store (value.read store * signOf 1 false (value.read store))) := by
  refine (achieves_knownSign usable usable' signed).bind fun factor temps₁ store₁ first => ?_
  refine (achieves_basic (usable.mono first.grows) first.usable rfl).bind
    fun product temps₂ store₂ second => ?_
  refine achieves_pure (Yields.relabel ?_ _ _)
  have number : value.read store₁ * factor.read store₁ =
      value.read store * signOf 1 false (value.read store) := by
    rw [usable.read_eq first.keeps, first.read]
  exact number ▸ first.behind second

end Abs

end Emit

/-! ## Lines -/

theorem Listing.extend_inj {listing : Listing} {lines lines' : List Line}
    (same : listing.extend lines = listing.extend lines') : lines = lines' :=
  List.append_cancel_left (congrArg Listing.body same)

section Lines

variable {context : Context} {temps : Nat} {value : Operand} {scale : Int64}

theorem Lowering.sign_eq_ok (usable : value.Usable temps) (numeric : value.type ≠ .string)
    (fits : IsLong (2 * scale.toInt)) (huge : Bool) :
    Lowering.sign value scale huge = .ok (Emit.sign value scale huge) := by
  have doubled : Check.doubles scale = .ok () := if_pos fits
  simp only [Lowering.sign, Check.numeric_eq_ok numeric, usable.finite, doubled]
  rfl

/-- A scale that cannot be doubled is refused before anything is written. -/
theorem Lowering.sign_refused (usable : value.Usable temps) (numeric : value.type ≠ .string)
    (large : ¬IsLong (2 * scale.toInt)) (huge : Bool) :
    Lowering.sign value scale huge = .error (.input (.scaleTooLarge scale)) := by
  have refused : Check.doubles scale = .error (.input (.scaleTooLarge scale)) := if_neg large
  simp only [Lowering.sign, Check.numeric_eq_ok numeric, usable.finite, refused]
  rfl

theorem Lowering.abs_eq_ok {known : Option Operand} (usable : value.Usable temps)
    (numeric : value.type ≠ .string) (usable' : ∀ sign ∈ known, sign.Usable temps) :
    Lowering.abs value known = .ok (Emit.abs value known) := by
  have finite : known.forM Check.finite = .ok () := by
    cases known with
    | none => rfl
    | some sign => exact (usable' sign rfl).finite
  simp only [Lowering.abs, Check.numeric_eq_ok numeric, usable.finite, finite]
  rfl

/-- Running the lines of a sign leaves what its code makes of the number. -/
theorem lower_sign (usable : value.Usable context.temps) (numeric : value.type ≠ .string)
    (fits : IsLong (2 * scale.toInt)) (huge : Bool) (listing : Listing) :
    ∃ sign later emitted,
      context.lower listing (Lowering.sign value scale huge) = .ok (sign, later, listing.extend emitted) ∧
      context.temps ≤ later.temps ∧ sign.Usable later.temps ∧
      ∀ (store : Store) (x : Int64), store.eval value = .ok x →
        store.Leaves emitted sign (Emit.signOf scale huge x).toInt := by
  have achieves (store : Store) := @Emit.achieves_sign context.temps store value usable scale huge
  obtain ⟨_, _, yields⟩ := achieves {}
  refine ⟨_, _, _, Context.lower_of_eq_ok (Lowering.sign_eq_ok usable numeric fits huge) context listing,
    yields.grows, yields.usable, fun store x evaluated => ?_⟩
  rw [← usable.read_of_eval evaluated]
  exact (achieves store).leaves listing.indent

/-- Running the lines of an absolute value leaves it within reach of the pivot, if a sign that was lowered
before is still there. -/
theorem lower_abs {known : Option Operand} (usable : value.Usable context.temps)
    (numeric : value.type ≠ .string) (usable' : ∀ sign ∈ known, sign.Usable context.temps)
    (listing : Listing) :
    ∃ magnitude later emitted,
      context.lower listing (Lowering.abs value known) = .ok (magnitude, later, listing.extend emitted) ∧
      ∀ (store : Store) (x : Int64), store.eval value = .ok x → Emit.InReach x →
        (∀ sign ∈ known, store.eval sign = .ok (Emit.signOf 1 false x)) →
          store.Leaves emitted magnitude |x.toInt| := by
  refine ⟨_, _, _, Context.lower_of_eq_ok (Lowering.abs_eq_ok usable numeric usable') context listing,
    fun store x evaluated reach signed => ?_⟩
  obtain rfl := usable.read_of_eval evaluated
  have signs (sign : Operand) (member : sign ∈ known) :
      sign.read store = Emit.signOf 1 false (value.read store) :=
    (usable' sign member).read_of_eval (signed sign member)
  rw [← Emit.toInt_mul_sign reach.1, ← Emit.signOf_of_inReach reach 1]
  exact (Emit.achieves_abs usable usable' signs).leaves listing.indent

/-- A sign that was lowered and run before, and is still there, serves for the absolute value of the same
number. -/
theorem lower_abs_known (usable : value.Usable context.temps) (numeric : value.type ≠ .string)
    {sign : Operand} {earlier context' : Context} {listing : Listing} {signLines : List Line}
    (signed : context.lower listing (Lowering.sign value 1 false) =
      .ok (sign, earlier, listing.extend signLines))
    (listing' : Listing) (grows : earlier.temps ≤ context'.temps) :
    ∃ magnitude later emitted,
      context'.lower listing' (Lowering.abs value (some sign)) =
        .ok (magnitude, later, listing'.extend emitted) ∧
      ∀ (before middle store : Store) (x : Int64), before.run signLines = .ok middle →
        before.eval value = .ok x → store.eval value = .ok x → store.eval sign = middle.eval sign →
        Emit.InReach x → store.Leaves emitted magnitude |x.toInt| := by
  obtain ⟨sign', earlier', signLines', lowered, grows', usable', leaves⟩ :=
    lower_sign usable numeric (by decide : IsLong (2 * (1 : Int64).toInt)) false listing
  obtain ⟨rfl, rest⟩ := Prod.mk.inj (Except.ok.inj (lowered.symm.trans signed))
  obtain ⟨rfl, extended⟩ := Prod.mk.inj rest
  obtain rfl := Listing.extend_inj extended
  have known : ∀ sign ∈ some sign', sign.Usable context'.temps := by
    rintro _ ⟨⟩
    exact usable'.mono grows
  have stays : value.Usable context'.temps := usable.mono (Nat.le_trans grows' grows)
  obtain ⟨magnitude, later, emitted, lowered', leaves'⟩ := lower_abs stays numeric known listing'
  refine ⟨magnitude, later, emitted, lowered', ?_⟩
  intro before middle store x ran evaluated evaluated' kept reach
  refine leaves' store x evaluated' reach ?_
  rintro _ ⟨⟩
  obtain ⟨middle', number, ran', read, same⟩ := leaves before x evaluated
  obtain rfl : middle' = middle := Except.ok.inj (ran'.symm.trans ran)
  rw [kept, read, Int64.toInt_inj.mp same]

/-- Within reach of the pivot, and for each scale that can be doubled, running the lines of a sign leaves the
scale for a number that is not negative and minus the scale for a negative one, and the lines of an absolute
value leave it, with a sign of their own or with one that was lowered before and is still there. Beyond this
reach the sign of scale one is never one or minus one. A scale that cannot be doubled is refused, and nothing
is written. -/
theorem lower_sign_abs_exact (usable : value.Usable context.temps) (numeric : value.type ≠ .string)
    (listing : Listing) :
    (∀ scale : Int64, IsLong (2 * scale.toInt) → ∃ sign later emitted,
      context.lower listing (Lowering.sign value scale false) =
        .ok (sign, later, listing.extend emitted) ∧
      ∀ (store : Store) (x : Int64), store.eval value = .ok x →
        (Emit.InReach x →
          store.Leaves emitted sign (if x.toInt < 0 then -scale.toInt else scale.toInt)) ∧
        (¬Emit.InReach x → scale = 1 → ∃ r, store.Leaves emitted sign r ∧ r ≠ 1 ∧ r ≠ -1)) ∧
    (∃ magnitude later emitted,
      context.lower listing (Lowering.abs value none) = .ok (magnitude, later, listing.extend emitted) ∧
      ∀ (store : Store) (x : Int64), store.eval value = .ok x → Emit.InReach x →
        store.Leaves emitted magnitude |x.toInt|) ∧
    (∀ sign earlier signLines,
      context.lower listing (Lowering.sign value 1 false) =
        .ok (sign, earlier, listing.extend signLines) →
      ∀ (context' : Context) (listing' : Listing), earlier.temps ≤ context'.temps →
        ∃ magnitude later emitted,
          context'.lower listing' (Lowering.abs value (some sign)) =
            .ok (magnitude, later, listing'.extend emitted) ∧
          ∀ (before middle store : Store) (x : Int64), before.run signLines = .ok middle →
            before.eval value = .ok x → store.eval value = .ok x →
            store.eval sign = middle.eval sign → Emit.InReach x →
              store.Leaves emitted magnitude |x.toInt|) ∧
    ∀ (scale : Int64) (huge : Bool), ¬IsLong (2 * scale.toInt) →
      Lowering.sign value scale huge = .error (.input (.scaleTooLarge scale)) ∧
      (Stepwise.lowerSign value scale huge).Refuses (.input (.scaleTooLarge scale)) := by
  refine ⟨fun scale fits => ?_, ?_, fun sign earlier signLines signed context' listing' grows => ?_,
    fun scale huge large => ?_⟩
  · obtain ⟨sign, later, emitted, lowered, -, -, leaves⟩ := lower_sign usable numeric fits false listing
    refine ⟨sign, later, emitted, lowered, fun store x evaluated => ⟨fun reach => ?_, ?_⟩⟩
    · rw [← Emit.toInt_signed fits, ← Emit.signOf_of_inReach reach]
      exact leaves store x evaluated
    · rintro beyond rfl
      refine ⟨_, leaves store x evaluated, ?_⟩
      rcases Emit.signOf_one_beyond beyond with three | five
      · rw [three]
        decide
      · rw [five]
        decide
  · have unknown : ∀ sign ∈ (none : Option Operand), sign.Usable context.temps := nofun
    obtain ⟨magnitude, later, emitted, lowered, leaves⟩ := lower_abs usable numeric unknown listing
    exact ⟨magnitude, later, emitted, lowered, fun store x evaluated reach =>
      leaves store x evaluated reach nofun⟩
  · exact lower_abs_known usable numeric signed listing' grows
  · have refused := Lowering.sign_refused usable numeric large huge
    have agrees := Stepwise.agrees_sign value scale huge
    rw [refused] at agrees
    exact ⟨refused, agrees⟩

/-- The halved sign of a number that is not zero is lowered, and running its lines leaves the scale for a positive
number. For a negative one they leave minus the scale just if the number is not minus one, which halving makes
zero, or the scale is zero. -/
theorem lower_sign_huge_exact_iff (usable : value.Usable context.temps) (numeric : value.type ≠ .string)
    (fits : IsLong (2 * scale.toInt)) (listing : Listing) :
    ∃ sign later emitted,
      context.lower listing (Lowering.sign value scale true) = .ok (sign, later, listing.extend emitted) ∧
      ∀ (store : Store) (x : Int64), store.eval value = .ok x → x ≠ 0 →
        (store.Leaves emitted sign (if 0 < x.toInt then scale.toInt else -scale.toInt) ↔
          x ≠ -1 ∨ scale = 0) := by
  obtain ⟨sign, later, emitted, lowered, -, -, leaves⟩ := lower_sign usable numeric fits true listing
  refine ⟨sign, later, emitted, lowered, fun store x evaluated nonzero => ?_⟩
  rw [(leaves store x evaluated).iff_eq, Emit.signOf_huge, Emit.toInt_signed fits]
  have one : x = -1 ↔ x.toInt = -1 := Int64.toInt_inj.symm
  have none : scale = 0 ↔ scale.toInt = 0 := Int64.toInt_inj.symm
  have some : x.toInt ≠ 0 := fun zero => nonzero (Int64.toInt_inj.mp zero)
  rw [Ne, one, none]
  split_ifs <;> omega

end Lines

/-- The ends of the reach, the first number beyond it, and a scale that is too large. The sign of minus seven,
lowered and run before, serves for its absolute value. -/
theorem lower_sign_abs_exact_ends :
    (∃ sign later emitted,
      Context.lower { temps := 2 } { indent := 1 } (Lowering.sign (.slot (.player "x")) 1 false) =
        .ok (sign, later, Listing.extend { indent := 1 } emitted) ∧
      Store.Leaves ⟨[("stat x", -9223372036854775807)]⟩ emitted sign (-1) ∧
      Store.Leaves ⟨[("stat x", 4611686018427387903)]⟩ emitted sign 1 ∧
      ∃ r, Store.Leaves ⟨[("stat x", 4611686018427387904)]⟩ emitted sign r ∧ r ≠ 1 ∧ r ≠ -1) ∧
    (∃ sign earlier signLines magnitude later emitted store,
      Context.lower { temps := 2 } { indent := 1 } (Lowering.sign (.slot (.player "x")) 1 false) =
        .ok (sign, earlier, Listing.extend { indent := 1 } signLines) ∧
      Store.run ⟨[("stat x", -7)]⟩ signLines = .ok store ∧
      earlier.lower {} (Lowering.abs (.slot (.player "x")) (some sign)) =
        .ok (magnitude, later, Listing.extend {} emitted) ∧
      store.Leaves emitted magnitude 7) ∧
    Lowering.sign (.slot (.player "x")) 4611686018427387904 false =
      .error (.input (.scaleTooLarge 4611686018427387904)) := by
  have sound : SlotKey.Sound (.player "x") := (by decide : SlotKey.Ordinary (.player "x")).toSound
  have usable : (Operand.slot (.player "x")).Usable 2 := Operand.usable_slot sound fun _ => nofun
  have evaluated (x : Int64) : Store.eval ⟨[("stat x", x)]⟩ (.slot (.player "x")) = .ok x :=
    Operand.resolve_right usable.readable _
  obtain ⟨signs, -, knowns, refused⟩ :=
    @lower_sign_abs_exact { temps := 2 } _ usable nofun { indent := 1 }
  refine ⟨?_, ?_, (refused 4611686018427387904 false (by decide)).1⟩
  · obtain ⟨sign, later, emitted, lowered, leaves⟩ := signs 1 (by decide)
    exact ⟨sign, later, emitted, lowered, (leaves _ _ (evaluated _)).1 (by decide),
      (leaves _ _ (evaluated _)).1 (by decide), (leaves _ _ (evaluated _)).2 (by decide) rfl⟩
  · have lowered := Context.lower_of_eq_ok
      (@Lowering.sign_eq_ok 2 _ 1 usable nofun (by decide) false) { temps := 2 } { indent := 1 }
    obtain ⟨store, performed, yields⟩ :=
      @Emit.achieves_sign 2 ⟨[("stat x", -7)]⟩ _ usable 1 false
    have ran := (Store.run_changeLines ⟨[("stat x", -7)]⟩ 1 _).trans performed
    have kept : store.eval (.slot (.player "x")) = .ok (-7) := by
      rw [Store.eval, Operand.resolve_right usable.readable, usable.read_eq yields.keeps]
      rfl
    obtain ⟨magnitude, later, emitted, lowered', leaves⟩ :=
      knowns _ _ _ lowered _ {} (Nat.le_refl _)
    exact ⟨_, _, _, magnitude, later, emitted, store, lowered, ran, lowered',
      leaves _ store store (-7) ran (evaluated _) kept rfl (by decide)⟩

/-- The least number, the largest, and both neighbours of zero but minus one. -/
theorem lower_sign_huge_exact_iff_ends :
    ∃ sign later emitted,
      Context.lower { temps := 2 } { indent := 1 } (Lowering.sign (.slot (.global "x")) 3 true) =
        .ok (sign, later, Listing.extend { indent := 1 } emitted) ∧
      Store.Leaves ⟨[("globalstat x", -9223372036854775808)]⟩ emitted sign (-3) ∧
      Store.Leaves ⟨[("globalstat x", 9223372036854775807)]⟩ emitted sign 3 ∧
      Store.Leaves ⟨[("globalstat x", -2)]⟩ emitted sign (-3) ∧
      Store.Leaves ⟨[("globalstat x", 1)]⟩ emitted sign 3 := by
  have sound : SlotKey.Sound (.global "x") := (by decide : SlotKey.Ordinary (.global "x")).toSound
  have usable : (Operand.slot (.global "x")).Usable 2 := Operand.usable_slot sound fun _ => nofun
  obtain ⟨sign, later, emitted, lowered, runs⟩ := @lower_sign_huge_exact_iff { temps := 2 } _ 3 usable
    nofun (by decide) { indent := 1 }
  have leaves (x : Int64) (nonzero : x ≠ 0) (other : x ≠ -1) :=
    (runs ⟨[("globalstat x", x)]⟩ x (Operand.resolve_right usable.readable _) nonzero).mpr (.inl other)
  exact ⟨sign, later, emitted, lowered, leaves _ (by decide) (by decide), leaves _ (by decide) (by decide),
    leaves _ (by decide) (by decide), leaves _ (by decide) (by decide)⟩

/-- The halved sign of minus one is one. -/
theorem lower_sign_huge_minus_one :
    ∃ sign later emitted,
      Context.lower {} {} (Lowering.sign (.ofLong (-1)) 1 true) =
        .ok (sign, later, Listing.extend {} emitted) ∧
      Store.Leaves {} emitted sign 1 ∧ ¬Store.Leaves {} emitted sign (-1) := by
  obtain ⟨sign, later, emitted, lowered, -, -, leaves⟩ := @lower_sign {} _ 1
    (Operand.usable_long 0 (-1)) nofun (by decide) true {}
  have value : (Emit.signOf 1 true (-1)).toInt = 1 := by decide
  have one : Store.Leaves {} emitted sign 1 := value ▸ leaves {} (-1) (by decide)
  refine ⟨sign, later, emitted, lowered, one, ?_⟩
  rw [one.iff_eq]
  decide

end StatScript
