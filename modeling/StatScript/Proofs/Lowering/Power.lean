import StatScript.Proofs.Lowering.Raising

/-!
# Powers

The code of a power is written both ways, and the shorter one is kept. Its parts are written in the same
manner, so what is known of smaller exponents gives what is known of the next.

Results:
1. `powerByMultiply_rest`, `powerByDivide_excess`: the code of a power, by its part.
2. `raisesTo`: the code raises at every exponent, whichever way is kept.
3. `lower_power_exact_iff`: when running the emitted lines leaves the power, for every base and exponent.
-/

namespace StatScript

/-! ## The code that is written -/

namespace Emit

/-- The part that is multiplied in. -/
def restPart (base : Operand) (n : Nat) : Emit Operand :=
  if restOf n = 1 then pure base else power base (restOf n)

/-- The part that is divided out, unless it is the square of the base. -/
def excessPart (base : Operand) (n : Nat) : Emit Operand :=
  if excessOf n = 1 then pure base
  else if isPowerOfTwo (excessOf n) then powerByMultiply base (excessOf n)
  else power base (excessOf n)

variable {base : Operand} {n temps : Nat}

theorem accumulate_apply (base : Operand) (n squarings temps : Nat) (tail : Temp → Emit Unit) :
    (do
      let temp ← define base base.type
      square temp squarings
      tail temp
      return result temp (.pow n) [base] : Emit Operand) temps =
      ⟨raising base ⟨temps + 1, base.type⟩ squarings ++ (tail ⟨temps + 1, base.type⟩ (temps + 1)).changes,
        result ⟨temps + 1, base.type⟩ (.pow n) [base],
        (tail ⟨temps + 1, base.type⟩ (temps + 1)).temps⟩ := by
  simp only [bind_apply, define, square_eq]
  simp [raising, pure]

theorem powerByMultiply_alone (rest : restOf n = 0) (base : Operand) (temps : Nat) :
    powerByMultiply base n temps =
      ⟨raising base ⟨temps + 1, base.type⟩ n.log2, result ⟨temps + 1, base.type⟩ (.pow n) [base],
        temps + 1⟩ := by
  have none (temp : Temp) : multiplyRest base temp n = pure () := by
    rw [multiplyRest, if_neg (by omega), dif_neg (not_not_intro rest)]
  rw [powerByMultiply, accumulate_apply, none]
  simp [pure]

theorem powerByMultiply_rest (rest : restOf n ≠ 0) (base : Operand) (temps : Nat) :
    powerByMultiply base n temps =
      ⟨raising base ⟨temps + 1, base.type⟩ n.log2 ++
          stage ⟨temps + 1, base.type⟩ .mul (restPart base n (temps + 1)),
        result ⟨temps + 1, base.type⟩ (.pow n) [base], (restPart base n (temps + 1)).temps⟩ := by
  have part (temp : Temp) :
      multiplyRest base temp n = restPart base n >>= fun part => combine temp .mul part := by
    rw [multiplyRest, restPart]
    split <;> rfl
  rw [powerByMultiply, accumulate_apply, part]
  rfl

theorem powerByDivide_twice (excess : excessOf n = 2) (base : Operand) (temps : Nat) :
    powerByDivide base n temps =
      ⟨raising base ⟨temps + 1, base.type⟩ (n.log2 + 1) ++
          (stage ⟨temps + 1, base.type⟩ .div ⟨[], base, temps + 1⟩ ++
            stage ⟨temps + 1, base.type⟩ .div ⟨[], base, temps + 1⟩),
        result ⟨temps + 1, base.type⟩ (.pow n) [base], temps + 1⟩ := by
  have twice (temp : Temp) : divideExcess base temp n =
      combine temp .div base >>= fun _ => combine temp .div base := by
    rw [divideExcess, if_neg (by omega), dif_pos excess]
  rw [powerByDivide, accumulate_apply, twice]
  rfl

theorem powerByDivide_excess (excess : excessOf n ≠ 2) (base : Operand) (temps : Nat) :
    powerByDivide base n temps =
      ⟨raising base ⟨temps + 1, base.type⟩ (n.log2 + 1) ++
          stage ⟨temps + 1, base.type⟩ .div (excessPart base n (temps + 1)),
        result ⟨temps + 1, base.type⟩ (.pow n) [base], (excessPart base n (temps + 1)).temps⟩ := by
  have part (temp : Temp) : divideExcess base temp n =
      excessPart base n >>= fun part => combine temp .div part := by
    rw [divideExcess, excessPart, dif_neg excess]
    split
    · rfl
    · split <;> rfl
  rw [powerByDivide, accumulate_apply, part]
  rfl

theorem restOf_spec (positive : n ≠ 0) : n = 2 ^ n.log2 + restOf n ∧ restOf n < 2 ^ n.log2 := by
  have least := Nat.log2_self_le positive
  have most := @Nat.lt_log2_self n
  rw [pow_succ] at most
  rw [restOf, Nat.pow_eq]
  omega

theorem excessOf_spec (positive : n ≠ 0) :
    n + excessOf n = 2 ^ (n.log2 + 1) ∧ excessOf n ≠ 0 ∧ excessOf n ≤ 2 ^ n.log2 := by
  have least := Nat.log2_self_le positive
  have most := @Nat.lt_log2_self n
  rw [excessOf, Nat.pow_eq]
  rw [pow_succ] at most ⊢
  omega

end Emit

/-! ## All exponents -/

/-- What is known of the code at one exponent: multiplying and the shorter way both raise, and a product
is not divided. -/
structure RaisesTo (base : Operand) (n : Nat) : Prop where
  multiply : ∀ {temps}, base.Usable temps → Raises base n temps (Emit.powerByMultiply base n temps)
  direct : ∀ {temps}, base.Usable temps → (Emit.powerByMultiply base n temps).Direct
  shorter : ∀ {temps}, base.Usable temps → Raises base n temps (Emit.power base n temps)

section Exponents

variable {base : Operand} {n temps : Nat}

theorem raises_restPart (ih : ∀ m < n, m ≠ 0 → RaisesTo base m) (rest : Emit.restOf n ≠ 0)
    (usable : base.Usable temps) : Raises base (Emit.restOf n) temps (Emit.restPart base n temps) := by
  unfold Emit.restPart
  split
  · next one =>
      rw [one]
      exact raises_base usable
  · exact (ih _ (Emit.restOf_lt rest) rest).shorter usable

theorem raises_powerByMultiply (ih : ∀ m < n, m ≠ 0 → RaisesTo base m) (positive : n ≠ 0)
    (usable : base.Usable temps) :
    Raises base n temps (Emit.powerByMultiply base n temps) ∧
      (Emit.powerByMultiply base n temps).Direct := by
  obtain ⟨exponent, small⟩ := Emit.restOf_spec positive
  by_cases rest : Emit.restOf n = 0
  · rw [Emit.powerByMultiply_alone rest]
    rw [rest] at exponent
    exact ⟨raises_square usable rfl exponent,
      fun change member divides => absurd divides (mem_raising member).2⟩
  · rw [Emit.powerByMultiply_rest rest]
    have raises := raises_restPart ih rest (usable.mono (Nat.le_succ temps))
    exact ⟨raises_multiply usable rfl raises rest small exponent, direct_multiply rfl raises⟩

theorem isPowerOfTwo_two_pow (k : Nat) : Emit.isPowerOfTwo (2 ^ k) := by
  simp [Emit.isPowerOfTwo, Nat.log2_two_pow]

/-- An excess as large as the last power of two is that power, and is not divided. -/
theorem raises_excessPart (ih : ∀ m < n, m ≠ 0 → RaisesTo base m) (positive : n ≠ 0)
    (excess : Emit.excessOf n ≠ 2) (usable : base.Usable temps) :
    Raises base (Emit.excessOf n) temps (Emit.excessPart base n temps) ∧
      (Emit.excessOf n = 2 ^ n.log2 → (Emit.excessPart base n temps).Direct) := by
  have positive' := (Emit.excessOf_spec positive).2.1
  unfold Emit.excessPart
  split
  · next one =>
      rw [one]
      exact ⟨raises_base usable, fun _ => List.forall_mem_nil _⟩
  split
  · rcases Nat.lt_or_eq_of_le (Emit.excessOf_le excess) with lt | eq
    · have raises := ih _ lt positive'
      exact ⟨raises.multiply usable, fun _ => raises.direct usable⟩
    · rw [eq]
      obtain ⟨raises, direct⟩ := raises_powerByMultiply ih positive usable
      exact ⟨raises, fun _ => direct⟩
  · next other =>
      refine ⟨(ih _ (Emit.excessOf_lt excess other) positive').shorter usable, fun eq => ?_⟩
      rw [eq] at other
      exact absurd (isPowerOfTwo_two_pow n.log2) other

theorem raises_powerByDivide (ih : ∀ m < n, m ≠ 0 → RaisesTo base m) (positive : n ≠ 0)
    (usable : base.Usable temps) : Raises base n temps (Emit.powerByDivide base n temps) := by
  obtain ⟨exponent, positive', small⟩ := Emit.excessOf_spec positive
  by_cases excess : Emit.excessOf n = 2
  · rw [Emit.powerByDivide_twice excess]
    rw [excess] at exponent
    exact raises_divide_twice usable rfl positive exponent
  · rw [Emit.powerByDivide_excess excess]
    obtain ⟨raises, direct⟩ :=
      raises_excessPart ih positive excess (usable.mono (Nat.le_succ temps))
    refine raises_divide usable rfl raises positive' ?_ exponent
    rcases Nat.lt_or_eq_of_le small with lt | eq
    · exact .inl lt
    · exact .inr ⟨eq, direct eq⟩

theorem raises_shorter {first second : Emit Operand}
    (raises : Raises base n temps (first temps))
    (raises' : Raises base n (first temps).temps (second (first temps).temps)) :
    Raises base n temps (Emit.shorter first second temps) := by
  simp only [Emit.shorter]
  split
  · exact raises
  split
  · exact raises'.later raises.grows
  · exact raises.spare raises'.grows

/-- The code of a power raises, whichever way it is written. -/
theorem raisesTo (base : Operand) (positive : n ≠ 0) : RaisesTo base n := by
  induction n using Nat.strongRecOn with
  | ind n ih =>
      refine ⟨fun usable => (raises_powerByMultiply ih positive usable).1,
        fun usable => (raises_powerByMultiply ih positive usable).2, fun usable => ?_⟩
      have raises := (raises_powerByMultiply ih positive usable).1
      have raises' := raises_powerByDivide ih positive (usable.mono raises.grows)
      rw [Emit.power]
      exact raises_shorter raises raises'

end Exponents

/-! ## Running the lines -/

@[simp]
theorem Store.run_changeLines (store : Store) (indent : Nat) (changes : List Change) :
    store.run (Draft.changeLines indent changes) = store.performAll changes := by
  induction changes generalizing store with
  | nil => rfl
  | cons change rest ih =>
      rw [performAll]
      cases stepped : store.perform change.text with
      | error fault =>
          have line : Machine.step { store } { change.line with indent } = .error fault := by
            simp only [Machine.step, Change.line, stepped]
            rfl
          show ((Machine.step { store } { change.line with indent } >>= _ : Except _ _).map _) = _
          rw [line]
          rfl
      | ok next =>
          have line : Machine.step { store } { change.line with indent } = .ok { store := next } := by
            simp only [Machine.step, Change.line, stepped]
            rfl
          exact (congrArg (Except.map Machine.store) (Machine.run_cons line _)).trans (ih next)

theorem lower_power {context : Context} {base : Operand} {exponent : Int} (plan : PowerPlan)
    (numeric : base.type ≠ .string) (least : 0 ≤ exponent) (most : exponent ≤ Lowering.maxExponent)
    (listing : Listing) :
    context.lower listing (Lowering.power plan base exponent) =
      .ok (context.write listing (Emit.powerBy plan base exponent.toNat)) := by
  have lowered : Lowering.power plan base exponent = .ok (Emit.powerBy plan base exponent.toNat) := by
    rw [Lowering.power, if_neg (Int.not_lt.mpr least), if_neg (Int.not_lt.mpr most), Check.numeric,
      if_neg numeric]
    rfl
  rw [lowered]
  rfl

theorem raises_powerBy {base : Operand} {temps : Nat} (usable : base.Usable temps) (n : Nat) :
    Raises base n temps (Emit.powerBy .shorter base n temps) := by
  unfold Emit.powerBy
  split
  · next zero =>
      subst zero
      exact raises_one base temps
  · next positive => exact (raisesTo base positive).shorter usable

/-- Without a division nothing can go wrong. With one a base of zero ends the run, and otherwise the result
is right unless it is divided after it has wrapped. -/
theorem Raises.exact_iff {base : Operand} {n temps : Nat} {code : Code Operand}
    (raises : Raises base n temps code) {store : Store} {x : Int} (same : (base.read store).toInt = x)
    (long : IsLong (x ^ n)) :
    (∃ later, store.performAll code.changes = .ok later ∧
        later.eval code.result = .ok (Int64.ofInt (x ^ n))) ↔
      code.Undivided ∨ x ≠ 0 ∧ (code.Direct ∨ IsLong (x ^ 2 ^ (n.log2 + 1))) := by
  have evaluated (later : Store) : later.eval code.result = .ok (code.result.read later) :=
    Operand.resolve_right raises.result.readable later
  constructor
  · rintro ⟨later, performed, value⟩
    by_cases undivided : code.Undivided
    · exact .inl undivided
    have nonzero : x ≠ 0 := by
      rintro rfl
      have zero : base.read store = 0 := Int64.toInt_inj.mp same
      rw [raises.fault zero undivided] at performed
      cases performed
    obtain ⟨later', performed', -, exact⟩ := raises.run same (.inr ⟨nonzero, long⟩)
    obtain rfl : later' = later := Except.ok.inj (performed'.symm.trans performed)
    rw [evaluated] at value
    exact .inr ⟨nonzero, exact.mp (Except.ok.inj value)⟩
  · intro sound
    have given : code.Undivided ∨ x ≠ 0 ∧ IsLong (x ^ n) :=
      sound.imp_right fun ⟨nonzero, _⟩ => ⟨nonzero, long⟩
    have fits : code.Direct ∨ IsLong (x ^ 2 ^ (n.log2 + 1)) := by
      rcases sound with undivided | ⟨-, fits⟩
      · exact .inl undivided.direct
      · exact fits
    obtain ⟨later, performed, -, exact⟩ := raises.run same given
    exact ⟨later, performed, by rw [evaluated, exact.mpr fits]⟩

/-- A power of at most 64 bits is lowered, and running the emitted lines leaves it in the returned operand
just if nothing is divided, or the base is not zero and either the result is not divided or the next power
of two fits as well. -/
theorem lower_power_exact_iff {context : Context} {base : Operand} {exponent : Int}
    (usable : base.Usable context.temps) (numeric : base.type ≠ .string) (least : 0 ≤ exponent)
    (most : exponent ≤ Lowering.maxExponent) (listing : Listing) :
    let n := exponent.toNat
    let code := Emit.powerBy .shorter base n context.temps
    ∃ emitted, context.lower listing (Lowering.power .shorter base exponent) =
        .ok (code.result, { context with temps := code.temps }, listing.extend emitted) ∧
      ∀ (store : Store) (x : Int), (base.read store).toInt = x → IsLong (x ^ n) →
        ((∃ later, store.run emitted = .ok later ∧
            later.eval code.result = .ok (Int64.ofInt (x ^ n))) ↔
          code.Undivided ∨ x ≠ 0 ∧ (code.Direct ∨ IsLong (x ^ 2 ^ (n.log2 + 1)))) := by
  intro n code
  refine ⟨Draft.changeLines listing.indent code.changes, lower_power .shorter numeric least most listing,
    fun store x same long => ?_⟩
  rw [Store.run_changeLines]
  exact (raises_powerBy usable n).exact_iff same long

/-- The next power of two, `32`, is in reach of a base of minus two. -/
theorem lower_power_exact_iff_minus_two :
    ∃ result later emitted store',
      Context.lower { temps := 3 } { indent := 1 }
          (Lowering.power .shorter (.slot (.player "x")) 23) =
        .ok (result, later, Listing.extend { indent := 1 } emitted) ∧
      Store.run ⟨[("stat x", -2)]⟩ emitted = .ok store' ∧ store'.eval result = .ok (-8388608) := by
  have sound : SlotKey.Sound (.player "x") := (by decide : SlotKey.Ordinary (.player "x")).toSound
  have usable : (Operand.slot (.player "x")).Usable 3 := Operand.usable_slot sound fun _ => nofun
  obtain ⟨emitted, lowered, exact⟩ := @lower_power_exact_iff { temps := 3 } _ 23 usable
    (by decide) (by decide) (by decide) { indent := 1 }
  obtain ⟨store', ran, value⟩ := (exact ⟨[("stat x", -2)]⟩ (-2) (by decide) (by decide)).mpr
    (.inr ⟨by decide, .inr (by decide)⟩)
  exact ⟨_, _, emitted, store', lowered, ran, value⟩

/-- The seventh power is reached from the eighth by dividing by the base. -/
theorem powerBy_seven (base : Operand) (temps : Nat) :
    Emit.powerBy .shorter base 7 temps =
      ⟨raising base ⟨temps + 4, base.type⟩ 3 ++
          stage ⟨temps + 4, base.type⟩ .div ⟨[], base, temps + 4⟩,
        Emit.result ⟨temps + 4, base.type⟩ (.pow 7) [base], temps + 4⟩ := by
  have log : Nat.log2 7 = 2 := rfl
  have log' : Nat.log2 3 = 1 := rfl
  have part : Emit.restPart base 7 = Emit.power base 3 := rfl
  have part' (temps : Nat) : Emit.restPart base 3 temps = ⟨[], base, temps⟩ := rfl
  have excess (temps : Nat) : Emit.excessPart base 7 temps = ⟨[], base, temps⟩ := rfl
  have excess' (temps : Nat) : Emit.excessPart base 3 temps = ⟨[], base, temps⟩ := rfl
  have multiply := @Emit.powerByMultiply_rest 7 (by decide) base
  have multiply' := @Emit.powerByMultiply_rest 3 (by decide) base
  have divide := @Emit.powerByDivide_excess 7 (by decide) base
  have divide' := @Emit.powerByDivide_excess 3 (by decide) base
  -- The product takes seven changes and the quotient five.
  simp [Emit.powerBy, Emit.power, Emit.shorter, log, log', part, part', excess, excess', multiply,
    multiply', divide, divide', stage, raising]

/-- So it fails for zero and is wrong for `500`, which has a seventh power of 64 bits but no eighth. -/
theorem lower_power_seven_fails :
    ∃ result later emitted,
      Context.lower {} {} (Lowering.power .shorter (.slot (.player "x")) 7) =
        .ok (result, later, Listing.extend {} emitted) ∧
      (IsLong (0 ^ 7) ∧ Store.run ⟨[("stat x", 0)]⟩ emitted = .error .divisionByZero) ∧
      IsLong (500 ^ 7) ∧ ¬∃ store', Store.run ⟨[("stat x", 500)]⟩ emitted = .ok store' ∧
        store'.eval result = .ok (Int64.ofInt (500 ^ 7)) := by
  have sound : SlotKey.Sound (.player "x") := (by decide : SlotKey.Ordinary (.player "x")).toSound
  have usable : (Operand.slot (.player "x")).Usable 0 := Operand.usable_slot sound fun _ => nofun
  have raises := raises_powerBy usable 7
  have lowered := @lower_power {} (.slot (.player "x")) 7 .shorter (by decide) (by decide) (by decide) {}
  have divided : ¬(Emit.powerBy .shorter (.slot (.player "x")) 7 0).Direct := by
    rw [powerBy_seven]
    exact divided_stage _ _
  have read : (Operand.read ⟨[("stat x", 500)]⟩ (.slot (.player "x"))).toInt = 500 := by decide
  refine ⟨(Emit.powerBy .shorter (.slot (.player "x")) 7 0).result, _,
    Draft.changeLines 0 (Emit.powerBy .shorter (.slot (.player "x")) 7 0).changes, lowered,
    ⟨by decide, ?_⟩, by decide, ?_⟩
  · rw [Store.run_changeLines]
    exact raises.fault rfl fun undivided => divided undivided.direct
  · rw [Store.run_changeLines, raises.exact_iff read (by decide)]
    rintro (undivided | ⟨-, direct | long⟩)
    · exact divided undivided.direct
    · exact divided direct
    · exact absurd long (by decide)

end StatScript
