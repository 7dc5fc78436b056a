import StatScript.Proofs.Lowering.Transcript

/-!
# Literals that are not finite

The checks of an operation refuse a literal that is infinite or undefined before any code is written. Only
a power makes no such check of its base, and all of its code begins by setting a temp to the base.

Results:
1. `Emit.finite_basic` up to `Emit.finite_powerBy`: the code of finite operands has finite values only.
2. `Emit.exists_base`: the code of a power has the base as a value.
3. `Request.requires`: what is lowered has finite operands, unless it is a power.
4. `Transcript.lines_run`: the lines of requests are the changes that they write.
5. `infinite_literals_refused`: so a literal that is not finite is refused and never written, unless a power
   of it is asked for.
-/

namespace StatScript

/-- Only a double fails to be finite. -/
theorem Operand.exists_double {operand : Operand} (infinite : operand.isFinite = false) :
    ∃ value, operand = .literal (.double value) := by
  cases operand with
  | literal literal =>
      cases literal with
      | double value => exact ⟨value, rfl⟩
      | long _ | text _ => cases infinite
  | slot _ | computed _ _ | placeholder _ _ => cases infinite

theorem Operand.isFinite_relabel {operand : Operand} (finite : operand.isFinite) (operation : Operation)
    (operands : List Operand) : (Emit.relabel operand operation operands).isFinite := by
  cases operand with
  | computed _ _ => rfl
  | slot _ | literal _ | placeholder _ _ => exact finite

/-! ## Code -/

namespace Emit

/-- Code with finite values only, whatever temps are handed out before it. -/
def Finite {α : Type} (emit : Emit α) (gives : α → Prop) : Prop :=
  ∀ temps, (∀ change ∈ (emit temps).changes, change.value.isFinite) ∧ gives (emit temps).result

/-- Code with finite values only, of which the result is not used. -/
def WritesFinite {α : Type} (emit : Emit α) : Prop :=
  Finite emit fun _ => True

section Finite

variable {α β : Type} {left right value base : Operand}

theorem finite_pure {gives : α → Prop} {result : α} (given : gives result) : Finite (pure result) gives :=
  fun _ => ⟨List.forall_mem_nil _, given⟩

theorem Finite.bind {emit : Emit α} {next : α → Emit β} {gives : α → Prop} {gives' : β → Prop}
    (finite : Finite emit gives) (finite' : ∀ result, gives result → Finite (next result) gives') :
    Finite (emit >>= next) gives' := by
  intro temps
  obtain ⟨first, given⟩ := finite temps
  obtain ⟨second, given'⟩ := finite' _ given (emit temps).temps
  exact ⟨List.forall_mem_append.mpr ⟨first, second⟩, given'⟩

theorem Finite.writes {emit : Emit α} {gives : α → Prop} (finite : Finite emit gives) :
    WritesFinite emit :=
  fun temps => ⟨(finite temps).1, trivial⟩

theorem finite_define (finite : value.isFinite) (type : ValueType) :
    Finite (define value type) fun _ => True :=
  fun _ => ⟨List.forall_mem_singleton.mpr finite, trivial⟩

theorem finite_change (target : Slot) (mode : Mode) (finite : value.isFinite) :
    Finite (change target mode value) fun _ => True :=
  fun _ => ⟨List.forall_mem_singleton.mpr finite, trivial⟩

theorem finite_combine (temp : Temp) (op : BasicOp) (finite : value.isFinite) :
    Finite (combine temp op value) fun _ => True :=
  finite_change temp.slot _ finite

theorem finite_basic (op : BasicOp) (finite : left.isFinite) (finite' : right.isFinite) :
    Finite (basic op left right) fun result => result.isFinite := by
  refine (finite_define finite _).bind fun temp _ => ?_
  refine (finite_combine temp op finite').bind fun _ _ => ?_
  exact finite_pure rfl

/-! ### Modulo, sign and absolute value -/

theorem finite_remainder (finite : left.isFinite) (finite' : right.isFinite) :
    Finite (remainder left right) fun result => result.isFinite := by
  refine (finite_basic .div finite finite').bind fun quotient given => ?_
  refine (finite_basic .mul given finite').bind fun product given' => ?_
  exact finite_basic .sub finite given'

theorem finite_modulo (finite : left.isFinite) (finite' : right.isFinite) :
    Finite (modulo left right) fun result => result.isFinite := by
  refine (finite_remainder finite finite').bind fun raw given => ?_
  refine (finite_basic .add given finite').bind fun moved given' => ?_
  refine (finite_remainder given' finite').bind fun rest given'' => ?_
  exact finite_pure (Operand.isFinite_relabel given'' _ _)

theorem finite_halve (huge : Bool) (temp : Temp) : Finite (halve huge temp) fun _ => True := by
  cases huge with
  | true => exact finite_combine temp .div rfl
  | false => exact finite_pure trivial

theorem finite_sign (finite : value.isFinite) (scale : Int64) (huge : Bool) :
    Finite (sign value scale huge) fun result => result.isFinite := by
  refine (finite_define finite _).bind fun temp _ => ?_
  refine (finite_halve huge temp).bind fun _ _ => ?_
  refine (finite_combine temp .add rfl).bind fun _ _ => ?_
  refine (finite_combine temp .div rfl).bind fun _ _ => ?_
  refine (finite_combine temp .mul rfl).bind fun _ _ => ?_
  refine (finite_combine temp .sub rfl).bind fun _ _ => ?_
  exact finite_pure rfl

theorem finite_abs (finite : value.isFinite) {known : Option Operand}
    (finite' : ∀ sign ∈ known, sign.isFinite) :
    Finite (abs value known) fun result => result.isFinite := by
  have factor : Finite (knownSign value known) fun result => result.isFinite := by
    cases known with
    | some sign => exact finite_pure (finite' sign rfl)
    | none => exact finite_sign finite 1 false
  refine factor.bind fun factor given => ?_
  refine (finite_basic .mul finite given).bind fun product given' => ?_
  exact finite_pure (Operand.isFinite_relabel given' _ _)

/-! ### In-place modulo -/

theorem finite_correctSign (target : Slot) (finite : value.isFinite) :
    Finite (correctSign target value) fun _ => True := by
  refine (finite_sign rfl 1 false).bind fun sign given => ?_
  refine (finite_basic .sub rfl given).bind fun twice given => ?_
  refine (finite_basic .div given rfl).bind fun negative given => ?_
  refine (finite_basic .mul given finite).bind fun correction given => ?_
  exact finite_change target _ given

theorem finite_moduloInPlace (target : Slot) (finite : value.isFinite) :
    Finite (moduloInPlace target value) fun _ => True := by
  refine (finite_modulo rfl finite).bind fun rest given => ?_
  refine (finite_change target _ given).bind fun _ _ => ?_
  split
  · exact finite_pure trivial
  · exact finite_correctSign target finite

/-! ### Powers -/

theorem finite_square (temp : Temp) (times : Nat) : Finite (square temp times) fun _ => True := by
  induction times with
  | zero => exact finite_pure trivial
  | succ times ih => exact (finite_combine temp .mul rfl).bind fun _ _ => ih

theorem finite_shorter {first second : Emit Operand} {gives : Operand → Prop} (finite : Finite first gives)
    (finite' : Finite second gives) : Finite (shorter first second) gives := by
  intro temps
  simp only [shorter]
  split_ifs
  · exact finite temps
  · exact finite' _
  · exact finite temps

/-- Squaring a temp of its own and a tail that changes it. -/
theorem finite_accumulate {tail : Temp → Emit Unit} (finite : base.isFinite) (squarings n : Nat)
    (finite' : ∀ temp, Finite (tail temp) fun _ => True) :
    Finite (do
      let temp ← define base base.type
      square temp squarings
      tail temp
      return result temp (.pow n) [base]) fun result => result.isFinite := by
  refine (finite_define finite _).bind fun temp _ => ?_
  refine (finite_square temp squarings).bind fun _ _ => ?_
  refine (finite' temp).bind fun _ _ => ?_
  exact finite_pure rfl

section Exponents

variable {n : Nat}

/-- What is known of the code at one exponent. -/
structure FinitePower (base : Operand) (n : Nat) : Prop where
  multiply : Finite (powerByMultiply base n) fun result => result.isFinite
  divide : Finite (powerByDivide base n) fun result => result.isFinite

theorem FinitePower.shorter (powers : FinitePower base n) :
    Finite (power base n) fun result => result.isFinite := by
  rw [power]
  exact finite_shorter powers.multiply powers.divide

theorem finite_multiplyRest (ih : ∀ m < n, FinitePower base m) (finite : base.isFinite) (temp : Temp) :
    Finite (multiplyRest base temp n) fun _ => True := by
  rw [multiplyRest]
  split
  · exact finite_combine temp .mul finite
  split
  · next rest =>
      refine (ih _ (restOf_lt rest)).shorter.bind fun part given => ?_
      exact finite_combine temp .mul given
  · exact finite_pure trivial

theorem finite_powerByMultiply (ih : ∀ m < n, FinitePower base m) (finite : base.isFinite) :
    Finite (powerByMultiply base n) fun result => result.isFinite := by
  rw [powerByMultiply]
  exact finite_accumulate finite _ n (finite_multiplyRest ih finite)

/-- The excess may be the exponent itself, and is then reached by multiplying. -/
theorem finite_divideExcess (ih : ∀ m < n, FinitePower base m) (finite : base.isFinite) (temp : Temp) :
    Finite (divideExcess base temp n) fun _ => True := by
  rw [divideExcess]
  split
  · exact finite_combine temp .div finite
  split
  · exact (finite_combine temp .div finite).bind fun _ _ => finite_combine temp .div finite
  split
  · next excess _ =>
      have smaller (m : Nat) (less : m < excessOf n) : FinitePower base m :=
        ih m (Nat.lt_of_lt_of_le less (excessOf_le excess))
      exact (finite_powerByMultiply smaller finite).bind fun divisor given => finite_combine temp .div given
  · next excess plain =>
      refine (ih _ (excessOf_lt excess plain)).shorter.bind fun divisor given => ?_
      exact finite_combine temp .div given

theorem finitePower (finite : base.isFinite) (n : Nat) : FinitePower base n := by
  induction n using Nat.strong_induction_on with
  | h n ih =>
      refine ⟨finite_powerByMultiply ih finite, ?_⟩
      rw [powerByDivide]
      exact finite_accumulate finite _ n (finite_divideExcess ih finite)

end Exponents

theorem finite_powerBy (plan : PowerPlan) (finite : base.isFinite) (n : Nat) :
    Finite (powerBy plan base n) fun result => result.isFinite := by
  unfold powerBy
  split
  · exact finite_pure rfl
  cases plan with
  | shorter => exact (finitePower finite n).shorter
  | multiply => exact (finitePower finite n).multiply
  | divide => exact (finitePower finite n).divide

end Finite

/-- Whichever way it is written, the code of a power begins by setting a temp to the base. -/
theorem exists_base (plan : PowerPlan) (base : Operand) {n : Nat} (positive : n ≠ 0) (temps : Nat) :
    ∃ change ∈ (powerBy plan base n temps).changes, change.value = base := by
  have first (tail : Temp → Emit Unit) (squarings temps : Nat) :
      ∃ change ∈ ((do
        let temp ← define base base.type
        square temp squarings
        tail temp
        return result temp (.pow n) [base] : Emit Operand) temps).changes, change.value = base := by
    rw [accumulate_apply]
    exact ⟨_, List.mem_append_left _ List.mem_cons_self, rfl⟩
  have multiply (temps : Nat) :
      ∃ change ∈ (powerByMultiply base n temps).changes, change.value = base := by
    rw [powerByMultiply]
    exact first _ _ _
  have divide (temps : Nat) : ∃ change ∈ (powerByDivide base n temps).changes, change.value = base := by
    rw [powerByDivide]
    exact first _ _ _
  unfold powerBy
  rw [if_neg positive]
  cases plan with
  | multiply => exact multiply temps
  | divide => exact divide temps
  | shorter =>
      show ∃ change ∈ (power base n temps).changes, change.value = base
      rw [power]
      simp only [shorter]
      split_ifs
      · exact multiply temps
      · exact divide _
      · exact multiply temps

end Emit

/-! ## Operations that check -/

namespace Lowering

/-- An operation that is not refused has finite operands, and its result is as it should be. -/
def Requires {α : Type} (operands : List Operand) (holds : α → Prop) (lowering : Except LoweringError α) :
    Prop :=
  ∀ result, lowering = .ok result → (∀ operand ∈ operands, operand.isFinite) ∧ holds result

section Requires

variable {α : Type} {operands : List Operand} {holds : α → Prop} {left right : Operand}

theorem requires_ok {result : α} (given : holds result) : Requires [] holds (.ok result) := by
  rintro _ ⟨⟩
  exact ⟨List.forall_mem_nil _, given⟩

theorem requires_slot {lowering : Except LoweringError α} (requires : Requires operands holds lowering)
    (cell : Slot) : Requires (.slot cell :: operands) holds lowering :=
  fun result lowered =>
    (requires result lowered).imp_left fun finite => List.forall_mem_cons.mpr ⟨rfl, finite⟩

/-- Any check may stand in front. -/
theorem requires_check {check : Except LoweringError Unit} {rest : Except LoweringError α}
    (requires : Requires operands holds rest) : Requires operands holds (check >>= fun _ => rest) := by
  intro result lowered
  obtain ⟨_, -, lowered⟩ := bind_eq_ok.mp lowered
  exact requires result lowered

/-- What stands behind the check of an operand may rely on it. -/
theorem requires_finite {operand : Operand} {rest : Except LoweringError α}
    (requires : operand.isFinite → Requires operands holds rest) :
    Requires (operand :: operands) holds (Check.finite operand >>= fun _ => rest) := by
  intro result lowered
  obtain ⟨_, checked, lowered⟩ := bind_eq_ok.mp lowered
  unfold Check.finite at checked
  split at checked
  · next finite =>
      obtain ⟨others, given⟩ := requires finite result lowered
      exact ⟨List.forall_mem_cons.mpr ⟨finite, others⟩, given⟩
  · cases checked

theorem Requires.swap {lowering : Except LoweringError α}
    (requires : Requires [left, right] holds lowering) : Requires [right, left] holds lowering := by
  intro result lowered
  obtain ⟨finite, given⟩ := requires result lowered
  exact ⟨fun operand member => finite operand ((List.Perm.swap left right []).mem_iff.mp member), given⟩

theorem requires_basic (op : BasicOp) (left right : Operand) :
    Requires [left, right] Emit.WritesFinite (basic op left right) :=
  requires_check (requires_finite fun finite => requires_finite fun finite' =>
    requires_ok (Emit.finite_basic op finite finite').writes)

theorem requires_combination (call : Combination) (left right : Operand) :
    Requires [left, right] Emit.WritesFinite (call.lowering left right) := by
  cases call with
  | basic op => exact requires_basic op left right
  | floorDiv => exact requires_basic .div left right
  | reflected op =>
      show Requires [left, right] Emit.WritesFinite (reflected op left right)
      unfold reflected
      split
      · exact requires_basic op left right
      · exact (requires_basic op right left).swap

theorem requires_modulo (left right : Operand) :
    Requires [left, right] Emit.WritesFinite (modulo left right) := by
  refine requires_check (requires_check (requires_check ?_))
  refine requires_finite fun finite => requires_finite fun finite' => ?_
  exact requires_ok (Emit.finite_modulo finite finite').writes

theorem requires_sign (value : Operand) (scale : Int64) (huge : Bool) :
    Requires [value] Emit.WritesFinite (sign value scale huge) :=
  requires_check (requires_finite fun finite => requires_check
    (requires_ok (Emit.finite_sign finite scale huge).writes))

/-- A sign that was lowered before is checked like any other operand. -/
theorem requires_abs (value : Operand) (known : Option Operand) :
    Requires (value :: known.toList) Emit.WritesFinite (abs value known) := by
  refine requires_check (requires_finite fun finite => ?_)
  cases known with
  | none =>
      have unknown : ∀ sign ∈ (none : Option Operand), sign.isFinite := nofun
      exact requires_ok (Emit.finite_abs finite unknown).writes
  | some sign =>
      refine requires_finite fun finite' => requires_ok (Emit.finite_abs finite ?_).writes
      rintro _ ⟨⟩
      exact finite'

theorem requires_assign (target : Slot) (value : Operand) :
    Requires [.slot target, value] Emit.WritesFinite (assign target value) :=
  requires_slot (requires_check (requires_finite fun finite =>
    requires_ok (Emit.finite_change target _ finite).writes)) target

theorem requires_assignOp (target : Slot) (op : AssignOp) (value : Operand) :
    Requires [.slot target, value] Emit.WritesFinite (assignOp target op value) := by
  refine requires_slot (requires_check (requires_finite fun finite => ?_)) target
  cases op with
  | basic op => exact requires_ok (Emit.finite_change target _ finite).writes
  | mod =>
      refine requires_check (requires_check ?_)
      exact requires_ok (Emit.finite_moduloInPlace target finite).writes

theorem requires_compare (left : Operand) (comparison : Comparison) (right : Operand) :
    Requires [left, right] (fun _ => True) (compare left comparison right) :=
  requires_check (requires_finite fun _ => requires_finite fun _ =>
    fun _ _ => ⟨List.forall_mem_nil _, trivial⟩)

/-- A power is lowered whatever its base is, unless that is declared to be a string. -/
theorem power_eq_ok {plan : PowerPlan} {base : Operand} {exponent : Int} {emit : Emit Operand} :
    power plan base exponent = .ok emit ↔
      (0 ≤ exponent ∧ exponent ≤ maxExponent) ∧ base.type ≠ .string ∧
        emit = Emit.powerBy plan base exponent.toNat := by
  unfold power Check.numeric
  split_ifs with negative large text
  · exact ⟨nofun, fun ⟨⟨least, _⟩, _⟩ => absurd least (Int.not_le.mpr negative)⟩
  · exact ⟨nofun, fun ⟨⟨_, most⟩, _⟩ => absurd most (Int.not_le.mpr large)⟩
  · exact ⟨nofun, fun ⟨_, numeric, _⟩ => absurd text numeric⟩
  · refine ⟨?_, ?_⟩
    · rintro ⟨⟩
      exact ⟨⟨Int.not_lt.mp negative, Int.not_lt.mp large⟩, text, rfl⟩
    · rintro ⟨-, -, rfl⟩
      rfl

end Requires

end Lowering

/-! ## Requests -/

namespace Request

/-- The power of a literal that is not finite, to an exponent from a given one up to the largest that is
lowered. -/
def Overlooks (least : Int) : Request → Prop
  | power _ base exponent => base.isFinite = false ∧ least ≤ exponent ∧ exponent ≤ Lowering.maxExponent
  | _ => False

theorem requires_answer {α : Type} {operands : List Operand} {lowering : Except LoweringError (Emit α)}
    (requires : Lowering.Requires operands Emit.WritesFinite lowering) (returned : α → Option Operand) :
    Lowering.Requires operands Emit.WritesFinite (answer returned lowering) := by
  cases lowering with
  | error error => exact nofun
  | ok emit =>
      obtain ⟨finite, writes⟩ := requires emit rfl
      rintro _ ⟨⟩
      exact ⟨finite, writes.bind fun _ _ => Emit.finite_pure trivial⟩

/-- A request that is lowered has finite operands and writes finite values, or it is a power. -/
theorem requires {request : Request} (checked : ¬ request.Overlooks 0) :
    Lowering.Requires request.operands Emit.WritesFinite request.lowering := by
  cases request with
  | combine call left right => exact requires_answer (Lowering.requires_combination call left right) _
  | modulo left right => exact requires_answer (Lowering.requires_modulo left right) _
  | reflectedModulo this other => exact requires_answer (Lowering.requires_modulo other this).swap _
  | power plan base exponent =>
      refine requires_answer ?_ _
      intro emit lowered
      obtain ⟨range, -, rfl⟩ := Lowering.power_eq_ok.mp lowered
      have finite : base.isFinite := Decidable.of_not_not fun infinite =>
        checked ⟨Bool.eq_false_iff.mpr infinite, range⟩
      exact ⟨List.forall_mem_singleton.mpr finite, (Emit.finite_powerBy plan finite _).writes⟩
  | sign value scale huge => exact requires_answer (Lowering.requires_sign value scale huge) _
  | abs value known => exact requires_answer (Lowering.requires_abs value known) _
  | assign target value => exact requires_answer (Lowering.requires_assign target value) _
  | assignOp target op value => exact requires_answer (Lowering.requires_assignOp target op value) _
  | compare left comparison right =>
      intro emit lowered
      cases compared : Lowering.compare left comparison right with
      | error error =>
          rw [lowering, compared] at lowered
          cases lowered
      | ok condition =>
          rw [lowering, compared] at lowered
          obtain rfl := Except.ok.inj lowered
          exact ⟨(Lowering.requires_compare left comparison right condition compared).1,
            Emit.finite_pure trivial⟩

/-- The code of a power that overlooks its base. -/
theorem Overlooks.exists_power {request : Request} {least : Int} (overlooks : request.Overlooks least)
    (nonneg : 0 ≤ least) :
    ∃ plan base, ∃ n : Nat, base.isFinite = false ∧ least ≤ n ∧
      request.lowering = .ok (some <$> Emit.powerBy plan base n) := by
  cases request with
  | power plan base exponent =>
      obtain ⟨infinite, above, most⟩ := overlooks
      obtain ⟨value, rfl⟩ := Operand.exists_double infinite
      have least' : 0 ≤ exponent := Int.le_trans nonneg above
      have numeric : (Operand.literal (.double value)).type ≠ .string := nofun
      refine ⟨plan, _, exponent.toNat, infinite, ?_, ?_⟩
      · rwa [Int.toNat_of_nonneg least']
      · rw [lowering, Lowering.power_eq_ok.mpr ⟨⟨least', most⟩, numeric, rfl⟩]
        rfl
  | _ => exact overlooks.elim

/-- A literal that is not finite is refused in every place but as the base of a power. -/
theorem refused_iff {request : Request} {operand : Operand} (member : operand ∈ request.operands)
    (infinite : operand.isFinite = false) :
    (∃ error, request.lowering = .error error) ↔ ¬ request.Overlooks 0 := by
  constructor
  · rintro ⟨error, refused⟩ overlooks
    obtain ⟨plan, base, n, -, -, lowered⟩ := overlooks.exists_power (Int.le_refl 0)
    rw [lowered] at refused
    cases refused
  · intro checked
    cases lowered : request.lowering with
    | error error => exact ⟨error, rfl⟩
    | ok emit =>
        have finite := (requires checked emit lowered).1 operand member
        rw [infinite] at finite
        cases finite

/-- The changes that a request writes, none if it is refused. -/
def changes (request : Request) (temps : Nat) : List Change :=
  match request.lowering with
  | .error _ => []
  | .ok emit => (emit temps).changes

/-- The power zero is a literal and takes no code. -/
theorem changes_power_zero {base : Operand} (infinite : base.isFinite = false) (plan : PowerPlan)
    (temps : Nat) : (power plan base 0).changes temps = [] := by
  obtain ⟨value, rfl⟩ := Operand.exists_double infinite
  rfl

/-- All values that a request writes are finite, unless it is a power of one that is not. -/
theorem finite_changes_iff (request : Request) (temps : Nat) :
    (∀ change ∈ request.changes temps, change.value.isFinite) ↔ ¬ request.Overlooks 1 := by
  constructor
  · intro finite overlooks
    obtain ⟨plan, base, n, infinite, positive, lowered⟩ := overlooks.exists_power (by decide)
    obtain ⟨change, member, value⟩ := Emit.exists_base plan base (by omega : n ≠ 0) temps
    have listed : change ∈ request.changes temps := by
      rw [changes, lowered]
      exact List.mem_append_left _ member
    have held := finite change listed
    rw [value, infinite] at held
    cases held
  · intro checked
    by_cases overlooks : request.Overlooks 0
    · cases request with
      | power plan base exponent =>
          obtain ⟨infinite, least, most⟩ := overlooks
          have zero : exponent = 0 := Decidable.of_not_not fun positive =>
            checked ⟨infinite, by omega, most⟩
          rw [zero, changes_power_zero infinite]
          exact List.forall_mem_nil _
      | _ => exact overlooks.elim
    · unfold changes
      split
      · exact List.forall_mem_nil _
      · next emit lowered => exact ((requires overlooks emit lowered).2 temps).1

end Request

/-! ## All requests -/

namespace Transcript

/-- The changes that requests write, one after another. -/
def changes (transcript : Transcript) : List Request → List Change
  | [] => []
  | request :: rest =>
      request.changes transcript.context.temps ++ (transcript.step request).changes rest

theorem lines_step (transcript : Transcript) (request : Request) :
    (transcript.step request).listing.lines =
        transcript.listing.lines ++
          Draft.changeLines transcript.listing.indent (request.changes transcript.context.temps) ∧
      (transcript.step request).listing.indent = transcript.listing.indent := by
  unfold Request.changes
  split
  · next error refused =>
      rw [step_error refused]
      exact ⟨(List.append_nil _).symm, rfl⟩
  · next emit lowered =>
      rw [step_ok lowered]
      exact ⟨(List.append_assoc _ _ _).symm, rfl⟩

/-- The lines of requests are the changes that they write. -/
theorem lines_run (transcript : Transcript) (requests : List Request) :
    (requests.foldl step transcript).listing.lines =
      transcript.listing.lines ++
        Draft.changeLines transcript.listing.indent (transcript.changes requests) := by
  induction requests generalizing transcript with
  | nil => exact (List.append_nil _).symm
  | cons request rest ih =>
      obtain ⟨lines, indent⟩ := transcript.lines_step request
      rw [List.foldl_cons, ih, lines, indent, List.append_assoc, changes, Draft.changeLines,
        Draft.changeLines, Draft.changeLines, List.map_append, List.map_append]

theorem finite_changes_iff (transcript : Transcript) (requests : List Request) :
    (∀ change ∈ transcript.changes requests, change.value.isFinite) ↔
      ∀ request ∈ requests, ¬ request.Overlooks 1 := by
  induction requests generalizing transcript with
  | nil => exact iff_of_true (List.forall_mem_nil _) (List.forall_mem_nil _)
  | cons request rest ih =>
      rw [changes, List.forall_mem_append, List.forall_mem_cons, request.finite_changes_iff, ih]

end Transcript

/-- A request with an infinite or undefined literal is refused and leaves everything as it was, unless that
is the base of a power with an exponent that is lowered. The lines of requests are the changes that they
write, and all of these have finite values if and only if no request is such a power, to an exponent of one
or more. -/
theorem infinite_literals_refused (transcript : Transcript) (requests : List Request) :
    (∀ request : Request, (∃ operand ∈ request.operands, operand.isFinite = false) →
      ((∃ error, request.lowering = .error error) ↔ ¬ request.Overlooks 0) ∧
        (¬ request.Overlooks 0 → transcript.step request = transcript)) ∧
      (requests.foldl Transcript.step transcript).listing.lines =
        transcript.listing.lines ++
          Draft.changeLines transcript.listing.indent (transcript.changes requests) ∧
      ((∀ change ∈ transcript.changes requests, change.value.isFinite) ↔
        ∀ request ∈ requests, ¬ request.Overlooks 1) := by
  refine ⟨?_, transcript.lines_run requests, transcript.finite_changes_iff requests⟩
  rintro request ⟨operand, member, infinite⟩
  have refused := Request.refused_iff member infinite
  refine ⟨refused, ?_⟩
  intro checked
  obtain ⟨error, lowered⟩ := refused.mpr checked
  exact Transcript.step_error lowered

/-- A literal that stands for no number. -/
def undefined : Operand := .literal (.double ⟨0x7FF8000000000000⟩)

theorem infinite_undefined : undefined.isFinite = false := by decide

/-- An assignment of it is refused and leaves everything as it was; its square is written. -/
theorem infinite_literals_refused_undefined :
    (∃ error, (Request.assign (.player "x") undefined).lowering = .error error) ∧
      Transcript.step {} (.assign (.player "x") undefined) = {} ∧
      ¬ ∀ change ∈ Transcript.changes {} [.power .multiply undefined 2], change.value.isFinite := by
  obtain ⟨refused, -, finite⟩ := infinite_literals_refused {} [.power .multiply undefined 2]
  have checked : ¬ (Request.assign (.player "x") undefined).Overlooks 0 := id
  obtain ⟨refuses, unchanged⟩ := refused (.assign (.player "x") undefined)
    ⟨undefined, List.mem_cons_of_mem _ List.mem_cons_self, infinite_undefined⟩
  refine ⟨refuses.mpr checked, unchanged checked, ?_⟩
  intro all
  exact finite.mp all _ List.mem_cons_self ⟨infinite_undefined, by decide, by decide⟩

/-- The first power of it, asked for in the usual way, puts it into a line. -/
theorem power_undefined_written :
    undefined.isFinite = false ∧
      (∃ emit, Lowering.power .shorter undefined 1 = .ok emit) ∧
      (Transcript.run [.power .shorter undefined 1]).listing.lines =
        [{ text := "stat _t1 set NaN", tag := .change .player, autoUnset := true }] := by
  have code (temps : Nat) : Emit.powerBy .shorter undefined 1 temps =
      ⟨raising undefined ⟨temps + 1, .double⟩ 0, Emit.result ⟨temps + 1, .double⟩ (.pow 1) [undefined],
        temps + 1⟩ := by
    show Emit.power undefined 1 temps = _
    rw [Emit.power]
    simp only [Emit.shorter, Emit.powerByMultiply_alone (show Emit.restOf 1 = 0 from rfl)]
    rfl
  have lowered : (Request.power .shorter undefined 1).lowering =
      .ok (Emit.powerBy .shorter undefined 1 >>= fun operand => pure (some operand)) := rfl
  refine ⟨infinite_undefined, ⟨_, Lowering.power_eq_ok.mpr ⟨by decide, by decide, rfl⟩⟩, ?_⟩
  rw [Transcript.run, List.foldl_cons, Transcript.step_ok lowered, Emit.bind_apply, code]
  rfl

end StatScript
