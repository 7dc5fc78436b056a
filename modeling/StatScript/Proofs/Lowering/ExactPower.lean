import StatScript.Proofs.Lowering.Decomposition
import StatScript.Proofs.Lowering.Stepwise
import StatScript.Proofs.Machine.Unbounded

/-!
# Powers without bounds

Where numbers do not wrap, every way to write a power is right for every base but zero: what is multiplied in
makes up the exponent, and what is divided out was multiplied in before.

Results:
1. `run_raising`, `run_multiply`, `run_divide`: what squaring and one part do.
2. `PowerCode.attains`: code that has a derivation leaves its power.
3. `powerBy_exact`: so it is with the code of every exponent, plan, base and context.
-/

namespace StatScript

open Draft (changeLines)

@[simp]
theorem changeLines_append (indent : Nat) (first second : List Change) :
    changeLines indent (first ++ second) = changeLines indent first ++ changeLines indent second := by
  simp only [changeLines, List.map_append]

/-- Code behind `temps` temps that leaves the power `n` of a base in its result. It changes no cells but its
own temps, and divides without a remainder. -/
structure Attains (base : Operand) (n temps : Nat) (code : Code Operand) : Prop where
  grows : temps ≤ code.temps
  run : ∀ {machine : Ideal} {x : Int}, machine.eval base = .ok x → x ≠ 0 →
    base.ApartFrom temps code.temps → ∀ indent, ∃ later,
      machine.run (changeLines indent code.changes) = .ok later ∧
        Ideal.Extends temps code.temps machine later ∧ later.eval code.result = .ok (x ^ n)

theorem Operand.ApartFrom.mono {operand : Operand} {temps temps' less more : Nat}
    (apart : operand.ApartFrom less more) (le : less ≤ temps) (le' : temps' ≤ more) :
    operand.ApartFrom temps temps' :=
  fun number least most => apart number (Nat.lt_of_le_of_lt le least) (Nat.le_trans most le')

/-- The base is its own first power. -/
theorem attains_base (base : Operand) (temps : Nat) : Attains base 1 temps ⟨[], base, temps⟩ := by
  refine ⟨Nat.le_refl _, fun {machine x} read _ _ _ => ⟨machine, rfl, .refl _ _ _, ?_⟩⟩
  rw [pow_one]
  exact read

section Stages

variable {base : Operand} {temps m : Nat} (temp : Temp) {machine : Ideal} {x : Int}

/-! ## Squaring -/

/-- Squaring reaches the powers of two. -/
theorem run_raising (own : temp.number = temps + 1) (read : machine.eval base = .ok x)
    (indent squarings : Nat) :
    ∃ later, machine.run (changeLines indent (raising base temp squarings)) = .ok later ∧
      Ideal.Extends temps (temps + 1) machine later ∧ later.cells temp.slot.left = x ^ 2 ^ squarings := by
  have sound : temp.slot.key.Sound := SlotKey.sound_temp temp.number
  have kept (machine : Ideal) (value : Int) :
      Ideal.Extends temps (temps + 1) machine (machine.set temp.slot.left value) :=
    .set machine (Nat.lt_of_succ_le (Nat.le_of_eq own.symm)) (Nat.le_of_eq own) value
  induction squarings with
  | zero =>
      refine ⟨machine.set temp.slot.left x, ?_, kept machine x, ?_⟩
      · exact Ideal.run_change ⟨temp.slot, .set, base, true⟩ sound read rfl indent []
      · simp
  | succ squarings ih =>
      obtain ⟨later, ran, frame, held⟩ := ih
      have value : later.eval (.slot temp.slot) = .ok (later.cells temp.slot.left) := later.eval_temp rfl
      refine ⟨later.set temp.slot.left (later.cells temp.slot.left * later.cells temp.slot.left), ?_,
        frame.trans (kept later _), ?_⟩
      · rw [raising_succ, changeLines_append, Ideal.run_append ran]
        exact Ideal.run_change ⟨temp.slot, .combine .mul, .slot temp.slot, false⟩ sound value rfl indent []
      · simp [held, pow_two_pow_succ]

/-! ## One part -/

/-- The code of a part leaves the temp alone that it will go into. -/
theorem Attains.run_part {part : Code Operand} (attains : Attains base m (temps + 1) part)
    (own : temp.number = temps + 1) (read : machine.eval base = .ok x) (nonzero : x ≠ 0)
    (apart : base.ApartFrom temps part.temps) (indent : Nat) :
    ∃ middle, machine.run (changeLines indent part.changes) = .ok middle ∧
      Ideal.Extends temps part.temps machine middle ∧ middle.eval part.result = .ok (x ^ m) ∧
      middle.cells temp.slot.left = machine.cells temp.slot.left := by
  obtain ⟨middle, ran, frame, value⟩ :=
    attains.run read nonzero (apart.mono (Nat.le_succ _) (Nat.le_refl _)) indent
  refine ⟨middle, ran, frame.mono (Nat.le_succ _) (Nat.le_refl _), value, ?_⟩
  refine frame.cells _ fun number more _ same => ?_
  have number_eq : temp.number = number := SlotKey.temp.inj
    (SlotKey.left_injective (SlotKey.sound_temp _) (SlotKey.sound_temp _) same)
  omega

/-- A part is multiplied into the temp. -/
theorem run_multiply {part : Code Operand} (attains : Attains base m (temps + 1) part)
    (own : temp.number = temps + 1) (read : machine.eval base = .ok x) (nonzero : x ≠ 0)
    (apart : base.ApartFrom temps part.temps) (indent : Nat) :
    ∃ later, machine.run (changeLines indent (stage temp .mul part)) = .ok later ∧
      Ideal.Extends temps part.temps machine later ∧
      later.cells temp.slot.left = machine.cells temp.slot.left * x ^ m := by
  obtain ⟨middle, ran, frame, value, kept⟩ := attains.run_part temp own read nonzero apart indent
  have sound : temp.slot.key.Sound := SlotKey.sound_temp temp.number
  have grows := attains.grows
  refine ⟨middle.set temp.slot.left (middle.cells temp.slot.left * x ^ m), ?_,
    frame.trans (.set middle (by omega) (by omega) _), ?_⟩
  · rw [stage, changeLines_append, Ideal.run_append ran]
    exact Ideal.run_change ⟨temp.slot, .combine .mul, part.result, false⟩ sound value rfl indent []
  · simp [kept]

/-- A part that divides the temp is divided out of it. -/
theorem run_divide {part : Code Operand} (attains : Attains base m (temps + 1) part)
    (own : temp.number = temps + 1) (read : machine.eval base = .ok x) (nonzero : x ≠ 0)
    (apart : base.ApartFrom temps part.temps) (indent : Nat) {quotient : Int}
    (product : machine.cells temp.slot.left = quotient * x ^ m) :
    ∃ later, machine.run (changeLines indent (stage temp .div part)) = .ok later ∧
      Ideal.Extends temps part.temps machine later ∧ later.cells temp.slot.left = quotient := by
  obtain ⟨middle, ran, frame, value, kept⟩ := attains.run_part temp own read nonzero apart indent
  have sound : temp.slot.key.Sound := SlotKey.sound_temp temp.number
  have grows := attains.grows
  have divisor : x ^ m ≠ 0 := pow_ne_zero m nonzero
  rw [product] at kept
  have exact : x ^ m ∣ middle.cells temp.slot.left := by
    rw [kept]
    exact Int.dvd_mul_left _ _
  refine ⟨middle.divide temp.slot.left (x ^ m), ?_,
    frame.trans (.divide middle (by omega) (by omega) exact), ?_⟩
  · rw [stage, changeLines_append, Ideal.run_append ran]
    exact Ideal.run_change ⟨temp.slot, .combine .div, part.result, false⟩ sound value (if_neg divisor)
      indent []
  · simp [kept, Int.mul_tdiv_cancel _ divisor]

end Stages

/-! ## Ways to write a power -/

section Ways

variable {base : Operand} {n m k temps : Nat}

theorem attains_squared (exponent : n = 2 ^ k) : Attains base n temps (Emit.squared base n k temps) := by
  let temp : Temp := ⟨temps + 1, base.type⟩
  refine ⟨Nat.le_succ _, fun {machine x} read _ _ indent => ?_⟩
  obtain ⟨later, ran, frame, held⟩ := run_raising temp rfl read indent k
  refine ⟨later, ran, frame, ?_⟩
  rw [exponent, ← held]
  exact later.eval_temp rfl

/-- The temp is squared before the part is written, so both have their powers when they meet. -/
theorem attains_joined {part : Emit Operand} {op : BasicOp} (grows : temps + 1 ≤ (part (temps + 1)).temps)
    (goes : ∀ {machine : Ideal} {x : Int}, machine.eval base = .ok x → x ≠ 0 →
      base.ApartFrom temps (part (temps + 1)).temps → ∀ indent,
      machine.cells (Temp.slot ⟨temps + 1, base.type⟩).left = x ^ 2 ^ k →
      ∃ later, machine.run (changeLines indent (stage ⟨temps + 1, base.type⟩ op (part (temps + 1)))) =
          .ok later ∧ Ideal.Extends temps (part (temps + 1)).temps machine later ∧
        later.cells (Temp.slot ⟨temps + 1, base.type⟩).left = x ^ n) :
    Attains base n temps (Emit.joined base n k op part temps) := by
  let temp : Temp := ⟨temps + 1, base.type⟩
  refine ⟨Nat.le_of_succ_le grows, fun {machine x} read nonzero apart indent => ?_⟩
  obtain ⟨later, ran, frame, held⟩ := run_raising temp rfl read indent k
  have frame' := frame.mono (Nat.le_refl temps) grows
  have read' : later.eval base = .ok x := by
    rw [frame'.eval_eq apart, read]
  obtain ⟨last, ran', frame'', held'⟩ := goes read' nonzero apart indent held
  refine ⟨last, ?_, frame'.trans frame'', ?_⟩
  · rw [Emit.joined, changeLines_append, Ideal.run_append ran, ran']
  · rw [← held']
    exact last.eval_temp rfl

theorem attains_multiply {part : Emit Operand} (attains : Attains base m (temps + 1) (part (temps + 1)))
    (exponent : n = 2 ^ k + m) : Attains base n temps (Emit.joined base n k .mul part temps) := by
  refine attains_joined attains.grows fun {machine x} read nonzero apart indent held => ?_
  obtain ⟨later, ran, frame, product⟩ :=
    run_multiply ⟨temps + 1, base.type⟩ attains rfl read nonzero apart indent
  refine ⟨later, ran, frame, ?_⟩
  rw [product, held, exponent, pow_add]

theorem attains_divide {part : Emit Operand} (attains : Attains base m (temps + 1) (part (temps + 1)))
    (exponent : n + m = 2 ^ k) : Attains base n temps (Emit.joined base n k .div part temps) := by
  refine attains_joined attains.grows fun {machine x} read nonzero apart indent held => ?_
  rw [← exponent, pow_add] at held
  exact run_divide ⟨temps + 1, base.type⟩ attains rfl read nonzero apart indent held

theorem attains_dividedTwice (exponent : n + 2 = 2 ^ k) :
    Attains base n temps (Emit.dividedTwice base n k temps) := by
  let temp : Temp := ⟨temps + 1, base.type⟩
  have first := attains_base base (temps + 1)
  refine ⟨Nat.le_succ _, fun {machine x} read nonzero apart indent => ?_⟩
  obtain ⟨raised, ran, frame, held⟩ := run_raising temp rfl read indent k
  have read' : raised.eval base = .ok x := by
    rw [frame.eval_eq apart, read]
  have square : x ^ 2 ^ k = x ^ n * x ^ 1 * x ^ 1 := by
    rw [← exponent, ← pow_add, ← pow_add]
  rw [square] at held
  obtain ⟨middle, ran', frame', held'⟩ := run_divide temp first rfl read' nonzero apart indent held
  have read'' : middle.eval base = .ok x := by
    rw [frame'.eval_eq apart, read']
  obtain ⟨last, ran'', frame'', held''⟩ := run_divide temp first rfl read'' nonzero apart indent held'
  refine ⟨last, ?_, (frame.trans frame').trans frame'', ?_⟩
  · rw [Emit.dividedTwice, changeLines_append, Ideal.run_append ran, changeLines_append,
      Ideal.run_append ran', ran'']
  · rw [← held'']
    exact last.eval_temp rfl

/-- Whichever way is kept, the temps of the other do no harm. -/
theorem attains_shorter {first second : Emit Operand} (attains : Attains base n temps (first temps))
    (attains' : Attains base n (first temps).temps (second (first temps).temps)) :
    Attains base n temps (Emit.shorter first second temps) := by
  have le := attains.grows
  have le' := attains'.grows
  simp only [Emit.shorter]
  split
  · exact attains
  split
  · refine ⟨Nat.le_trans le le', fun {machine x} read nonzero apart indent => ?_⟩
    obtain ⟨later, ran, frame, value⟩ :=
      attains'.run read nonzero (apart.mono le (Nat.le_refl _)) indent
    exact ⟨later, ran, frame.mono le (Nat.le_refl _), value⟩
  · refine ⟨Nat.le_trans le le', fun {machine x} read nonzero apart indent => ?_⟩
    obtain ⟨later, ran, frame, value⟩ :=
      attains.run read nonzero (apart.mono (Nat.le_refl _) le') indent
    exact ⟨later, ran, frame.mono (Nat.le_refl _) le', value⟩

end Ways

/-- Code that has a derivation leaves its power. -/
theorem PowerCode.attains {n : Nat} {emit : Operand → Emit Operand} (code : PowerCode n emit)
    (base : Operand) (temps : Nat) : Attains base n temps (emit base temps) := by
  induction code generalizing temps with
  | base => exact attains_base base temps
  | square exponent => exact attains_squared exponent
  | multiply exponent _ ih => exact attains_multiply (ih (temps + 1)) exponent
  | divide exponent _ ih => exact attains_divide (ih (temps + 1)) exponent
  | divideTwice exponent => exact attains_dividedTwice exponent
  | shorter _ _ ih ih' => exact attains_shorter (ih temps) (ih' _)

/-- By every plan, the code of a power is written to its end, and it takes the exponent apart into sums and
differences with powers of two. Its lines, run on integers of any size from a base that is not zero and no
temp of the code, leave the power in the result, divide without a remainder and change nothing but the temps
of the code. -/
theorem powerBy_exact (plan : PowerPlan) (base : Operand) {n : Nat} (positive : n ≠ 0)
    (context : Context) (listing : Listing) :
    PowerCode n (fun base => Emit.powerBy plan base n) ∧
    ∃ result temps' emitted,
      context.write listing (Emit.powerBy plan base n) =
        (result, { context with temps := temps' }, listing.extend emitted) ∧
      Stepwise.powerBy plan base n ⟨context, listing⟩ =
        (.ok result, ⟨{ context with temps := temps' }, listing.extend emitted⟩) ∧
      ∀ (machine : Ideal) (x : Int), machine.eval base = .ok x → x ≠ 0 →
        base.ApartFrom context.temps temps' →
        ∃ later, machine.run emitted = .ok later ∧ later.eval result = .ok (x ^ n) ∧
          Ideal.Extends context.temps temps' machine later := by
  have code := powerCode_powerBy plan positive
  have attains := code.attains base context.temps
  refine ⟨code, _, _, _, rfl, (Stepwise.writes_powerBy plan base n ⟨context, listing⟩).1, ?_⟩
  intro machine x read nonzero apart
  obtain ⟨later, ran, frame, value⟩ := attains.run read nonzero apart listing.indent
  exact ⟨later, ran, value, frame⟩

/-- An exponent that no request may have, by dividing. -/
theorem powerBy_exact_minus_three :
    ∃ result later emitted last,
      Stepwise.powerBy .divide (.slot (.player "x")) 2000 ⟨{ temps := 3 }, { indent := 1 }⟩ =
        (.ok result, later) ∧
      later.listing = Listing.extend { indent := 1 } emitted ∧
      Ideal.run ⟨fun _ => -3, fun _ => none, []⟩ emitted = .ok last ∧
      last.eval result = .ok ((-3) ^ 2000) ∧ last.cells "stat x" = -3 := by
  let base : Operand := .slot (.player "x")
  let machine : Ideal := ⟨fun _ => -3, fun _ => none, []⟩
  have sound : SlotKey.Sound (.player "x") := (by decide : SlotKey.Ordinary (.player "x")).toSound
  have within : SlotKey.Within 3 (.player "x") := fun _ => nofun
  have apart (temps' : Nat) : (Operand.slot (.player "x")).ApartFrom 3 temps' :=
    Operand.apartFrom_slot sound within temps'
  have read : machine.eval base = .ok (-3) := by
    decide
  obtain ⟨-, result, temps', emitted, -, written, exact⟩ :=
    powerBy_exact .divide base (by decide : 2000 ≠ 0) { temps := 3 } { indent := 1 }
  obtain ⟨last, ran, value, frame⟩ := exact machine (-3) read (by decide) (apart temps')
  refine ⟨result, _, emitted, last, written, rfl, ran, value, ?_⟩
  refine frame.cells "stat x" fun number _ _ same => ?_
  cases SlotKey.left_injective sound (SlotKey.sound_temp number) same

end StatScript
