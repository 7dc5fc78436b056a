import StatScript.Proofs.Lowering.Finiteness

/-!
# Types of whole expressions

An operation on two operands finds the type of its result in one of three ways: beside a literal the other operand
decides, two declared operands join their types, and a power has the type of its base. Inside an absolute value a
sign is joined in, which is always a long. In an expression over one number type and literals, all of them give
that type.

Results:
1. `Emit.resultType_eq`: two operands that fit a type, not both of them literals, make a result of that type.
2. `Emit.returns_basic` up to `Emit.returns_powerBy`: so does the code of each operation.
3. `Lowering.yields_modulo` and the others: no operation on such operands is refused.
4. `Formula.Typed.lowers`: hence no call of an expression is, and each result fits.
5. `Formula.lower_keeps_type`: results that are no literals have the type, and all may be assigned to slots of it.
-/

namespace StatScript

/-! ## Operands -/

@[simp]
theorem ValueType.accepts_self (type : ValueType) (literal : Bool) : type.accepts type literal := by
  cases type <;> rfl

/-- Two number types meet beside a literal. -/
theorem ValueType.accepts_numeric {left right : ValueType} (numeric : left.isNumeric) (numeric' : right.isNumeric) :
    left.accepts right true := by
  cases left with
  | any | string => cases numeric
  | long | double =>
      cases right with
      | any | long | double => rfl
      | string => cases numeric'

@[simp]
theorem ValueType.join_self (type : ValueType) : type.join type = type := by
  cases type <;> rfl

/-- A long gives way to any number type. -/
@[simp]
theorem ValueType.join_long {type : ValueType} (numeric : type.isNumeric) : type.join .long = type := by
  cases type with
  | long | double => rfl
  | any | string => cases numeric

theorem ValueType.ne_string {type : ValueType} (numeric : type.isNumeric) : type ≠ .string := by
  rintro rfl
  cases numeric

/-- An operand of an expression over a type is a finite number written in the script, or has the type. The flag
tells the two apart. -/
inductive Operand.Fits (type : ValueType) : Bool → Operand → Prop
  | literal {value : Literal} : value.type.isNumeric → value.isFinite → Fits type true (.literal value)
  | declared {operand : Operand} : operand.isLiteral = false → operand.type = type → Fits type false operand

namespace Operand.Fits

variable {type : ValueType} {literal literal' : Bool} {operand left right : Operand}

theorem isLiteral_eq (fits : operand.Fits type literal) : operand.isLiteral = literal := by
  cases fits with
  | literal => rfl
  | declared plain => exact plain

theorem type_eq (fits : operand.Fits type false) : operand.type = type := by
  cases fits with
  | declared _ same => exact same

theorem isFinite (fits : operand.Fits type literal) : operand.isFinite := by
  cases fits with
  | literal _ finite => exact finite
  | declared plain _ =>
      cases operand with
      | literal _ => cases plain
      | slot _ | computed _ _ | placeholder _ _ => rfl

theorem isNumeric (fits : operand.Fits type literal) (numeric : type.isNumeric) : operand.type.isNumeric := by
  cases fits with
  | literal number _ => exact number
  | declared _ same => rwa [same]

/-- The left one accepts the right one, whichever of them are literals. -/
theorem accepts (numeric : type.isNumeric) (fits : left.Fits type literal) (fits' : right.Fits type literal') :
    left.type.accepts right.type (left.isLiteral || right.isLiteral) := by
  rw [fits.isLiteral_eq, fits'.isLiteral_eq]
  cases literal with
  | true => exact ValueType.accepts_numeric (fits.isNumeric numeric) (fits'.isNumeric numeric)
  | false =>
      cases literal' with
      | true => exact ValueType.accepts_numeric (fits.isNumeric numeric) (fits'.isNumeric numeric)
      | false =>
          rw [fits.type_eq, fits'.type_eq]
          exact ValueType.accepts_self type _

theorem relabel (fits : operand.Fits type false) (operation : Operation) (operands : List Operand) :
    (Emit.relabel operand operation operands).Fits type false := by
  cases operand with
  | computed temp chain => exact .declared rfl fits.type_eq
  | slot _ | literal _ | placeholder _ _ => exact fits

end Operand.Fits

/-! ## Code -/

namespace Emit

/-- The result of code is as it should be, whatever temps are handed out before it. -/
def Returns {α : Type} (emit : Emit α) (gives : α → Prop) : Prop :=
  ∀ temps, gives (emit temps).result

section Returns

variable {α β : Type} {type : ValueType} {literal literal' : Bool} {left right value base : Operand}

theorem returns_pure {gives : α → Prop} {result : α} (given : gives result) : Returns (pure result) gives :=
  fun _ => given

theorem Returns.bind {emit : Emit α} {next : α → Emit β} {gives : α → Prop} {gives' : β → Prop}
    (returns : Returns emit gives) (returns' : ∀ result, gives result → Returns (next result) gives') :
    Returns (emit >>= next) gives' :=
  fun temps => returns' _ (returns temps) (emit temps).temps

/-- Beside a literal the other operand decides, and else both have the type. -/
theorem resultType_eq (fits : left.Fits type literal) (fits' : right.Fits type literal')
    (mixed : (literal && literal') = false) : resultType left right = type := by
  unfold resultType
  rw [fits.isLiteral_eq, fits'.isLiteral_eq]
  cases literal with
  | false =>
      cases literal' with
      | false =>
          show left.type.join right.type = type
          rw [fits.type_eq, fits'.type_eq, ValueType.join_self]
      | true => exact fits.type_eq
  | true =>
      cases literal' with
      | false => exact fits'.type_eq
      | true => cases mixed

/-- The result is kept in a temp of the type that was found. -/
theorem returns_basic (op : BasicOp) (found : resultType left right = type) :
    Returns (basic op left right) (Operand.Fits type false) :=
  fun _ => .declared rfl found

theorem returns_remainder (fits : left.Fits type literal) (fits' : right.Fits type literal')
    (mixed : (literal && literal') = false) :
    Returns (remainder left right) (Operand.Fits type false) := by
  refine (returns_basic .div (resultType_eq fits fits' mixed)).bind fun quotient given => ?_
  refine (returns_basic .mul (resultType_eq given fits' rfl)).bind fun product given' => ?_
  exact returns_basic .sub (resultType_eq fits given' (Bool.and_false _))

theorem returns_modulo (fits : left.Fits type literal) (fits' : right.Fits type literal')
    (mixed : (literal && literal') = false) : Returns (modulo left right) (Operand.Fits type false) := by
  refine (returns_remainder fits fits' mixed).bind fun raw given => ?_
  refine (returns_basic .add (resultType_eq given fits' rfl)).bind fun moved given' => ?_
  refine (returns_remainder given' fits' rfl).bind fun rest given'' => ?_
  exact returns_pure (given''.relabel _ _)

theorem returns_sign (value : Operand) (scale : Int64) (huge : Bool) :
    Returns (sign value scale huge) (Operand.Fits .long false) :=
  fun _ => .declared rfl rfl

/-- The sign is a long and gives way to the type of the value. -/
theorem returns_abs (numeric : type.isNumeric) (fits : value.Fits type false) :
    Returns (abs value none) (Operand.Fits type false) := by
  refine (returns_sign value 1 false).bind fun factor given => ?_
  have found : resultType value factor = type := by
    unfold resultType
    rw [fits.isLiteral_eq, given.isLiteral_eq, fits.type_eq, given.type_eq]
    exact ValueType.join_long numeric
  refine (returns_basic .mul found).bind fun product given' => ?_
  exact returns_pure (given'.relabel _ _)

theorem returns_shorter {first second : Emit Operand} {gives : Operand → Prop} (returns : Returns first gives)
    (returns' : Returns second gives) : Returns (shorter first second) gives := by
  intro temps
  simp only [shorter]
  split_ifs
  · exact returns temps
  · exact returns' _
  · exact returns temps

/-- A power stays in the temp that was set to its base, whatever is combined into it. -/
theorem returns_accumulate (tail : Temp → Emit Unit) (fits : base.Fits type false) (squarings n : Nat) :
    Returns (do
      let temp ← define base base.type
      square temp squarings
      tail temp
      return result temp (.pow n) [base]) (Operand.Fits type false) :=
  fun _ => .declared rfl fits.type_eq

theorem returns_powerByMultiply (fits : base.Fits type false) (n : Nat) :
    Returns (powerByMultiply base n) (Operand.Fits type false) := by
  rw [powerByMultiply]
  exact returns_accumulate _ fits _ n

theorem returns_powerByDivide (fits : base.Fits type false) (n : Nat) :
    Returns (powerByDivide base n) (Operand.Fits type false) := by
  rw [powerByDivide]
  exact returns_accumulate _ fits _ n

/-- Only the power zero is a literal. -/
theorem returns_powerBy (plan : PowerPlan) (fits : base.Fits type false) (n : Nat) :
    Returns (powerBy plan base n) (Operand.Fits type (n = 0)) := by
  unfold powerBy
  split
  · next zero =>
      rw [decide_eq_true zero]
      exact returns_pure (.literal rfl rfl)
  next positive =>
  rw [decide_eq_false positive]
  cases plan with
  | multiply => exact returns_powerByMultiply fits n
  | divide => exact returns_powerByDivide fits n
  | shorter =>
      show Returns (power base n) _
      rw [power]
      exact returns_shorter (returns_powerByMultiply fits n) (returns_powerByDivide fits n)

end Returns

end Emit

/-! ## Operations -/

namespace Lowering

/-- An operation that is not refused and whose result fits. -/
def Yields (type : ValueType) (literal : Bool) (lowering : Except LoweringError (Emit Operand)) : Prop :=
  ∃ emit, lowering = .ok emit ∧ emit.Returns (Operand.Fits type literal)

section Yields

variable {type : ValueType} {literal literal' : Bool} {operand left right value base : Operand}

theorem compatible_of_fits (operation : String) (numeric : type.isNumeric) (fits : left.Fits type literal)
    (fits' : right.Fits type literal') : Check.compatible operation left right = .ok () :=
  if_pos (fits.accepts numeric fits')

theorem numeric_of_fits (operation : String) (numeric : type.isNumeric) (fits : operand.Fits type literal) :
    Check.numeric operation operand = .ok () :=
  if_neg (ValueType.ne_string (fits.isNumeric numeric))

theorem finite_of_fits (fits : operand.Fits type literal) : Check.finite operand = .ok () :=
  if_pos fits.isFinite

variable (numeric : type.isNumeric)
include numeric

theorem yields_basic (op : BasicOp) (fits : left.Fits type literal) (fits' : right.Fits type literal')
    (mixed : (literal && literal') = false) : Yields type false (basic op left right) := by
  refine ⟨Emit.basic op left right, ?_, Emit.returns_basic op (Emit.resultType_eq fits fits' mixed)⟩
  rw [basic, compatible_of_fits _ numeric fits fits', finite_of_fits fits, finite_of_fits fits']
  rfl

theorem yields_combination (call : Combination) (fits : left.Fits type literal)
    (fits' : right.Fits type literal') (mixed : (literal && literal') = false) :
    Yields type false (call.lowering left right) := by
  cases call with
  | basic op => exact yields_basic numeric op fits fits' mixed
  | floorDiv => exact yields_basic numeric .div fits fits' mixed
  | reflected op =>
      show Yields type false (reflected op left right)
      unfold reflected
      split
      · exact yields_basic numeric op fits fits' mixed
      · exact yields_basic numeric op fits' fits ((Bool.and_comm _ _).trans mixed)

theorem yields_modulo (fits : left.Fits type literal) (fits' : right.Fits type literal')
    (mixed : (literal && literal') = false) : Yields type false (modulo left right) := by
  refine ⟨Emit.modulo left right, ?_, Emit.returns_modulo fits fits' mixed⟩
  rw [modulo, compatible_of_fits _ numeric fits fits', numeric_of_fits _ numeric fits,
    numeric_of_fits _ numeric fits', finite_of_fits fits, finite_of_fits fits']
  rfl

theorem yields_power (plan : PowerPlan) (fits : base.Fits type false) {exponent : Int} (least : 0 ≤ exponent)
    (most : exponent ≤ 1024) : Yields type (exponent = 0) (power plan base exponent) := by
  have number : base.type ≠ .string := ValueType.ne_string (fits.isNumeric numeric)
  refine ⟨Emit.powerBy plan base exponent.toNat, power_eq_ok.mpr ⟨⟨least, most⟩, number, rfl⟩, ?_⟩
  have zero : exponent = 0 ↔ exponent.toNat = 0 := by omega
  rw [decide_eq_decide.mpr zero]
  exact Emit.returns_powerBy plan fits _

theorem yields_abs (fits : value.Fits type false) : Yields type false (abs value none) := by
  refine ⟨Emit.abs value none, ?_, Emit.returns_abs numeric fits⟩
  rw [abs, numeric_of_fits _ numeric fits, finite_of_fits fits]
  rfl

/-- What fits may be assigned to a slot of the type. -/
theorem assign_of_fits (fits : operand.Fits type literal) {target : Slot} (same : target.type = type) :
    assign target operand = .ok (Emit.change target .set operand) := by
  have fits' : (Operand.slot target).Fits type false := .declared rfl same
  rw [assign, compatible_of_fits _ numeric fits' fits, finite_of_fits fits]
  rfl

end Yields

end Lowering

/-! ## Expressions -/

/-- A call that takes two operands. -/
inductive BinaryCall where
  | combine (call : Combination)
  | modulo
  | reflectedModulo
deriving DecidableEq, Repr

/-- The lowering of such a call; a reflected one is asked of its right operand. -/
def BinaryCall.lowering : BinaryCall → Operand → Operand → Except LoweringError (Emit Operand)
  | combine call, left, right => call.lowering left right
  | modulo, left, right => Lowering.modulo left right
  | reflectedModulo, this, other => Lowering.modulo other this

/-- An expression: operands that are there before, and calls on the results of others. -/
inductive Formula where
  | leaf (operand : Operand)
  | binary (call : BinaryCall) (first second : Formula)
  | power (plan : PowerPlan) (base : Formula) (exponent : Int)
  | abs (value : Formula)
deriving DecidableEq, Repr

/-- One more call, with its result. -/
def Transcript.ask (transcript : Transcript) (lowering : Except LoweringError (Emit Operand)) :
    Except LoweringError (Operand × Transcript) := do
  let (operand, context, listing) ← transcript.context.lower transcript.listing lowering
  return (operand, { context, listing, results := transcript.results ++ [operand] })

namespace Formula

/-- The calls of an expression one after another, operands first, up to one that is refused. -/
def lower (transcript : Transcript) : Formula → Except LoweringError (Operand × Transcript)
  | leaf operand => return (operand, transcript)
  | binary call first second => do
      let (left, transcript) ← first.lower transcript
      let (right, transcript) ← second.lower transcript
      transcript.ask (call.lowering left right)
  | power plan base exponent => do
      let (operand, transcript) ← base.lower transcript
      transcript.ask (Lowering.power plan operand exponent)
  | abs value => do
      let (operand, transcript) ← value.lower transcript
      transcript.ask (Lowering.abs operand none)

/-- The number of calls. -/
def calls : Formula → Nat
  | leaf _ => 0
  | binary _ first second => first.calls + second.calls + 1
  | power _ part _ | abs part => part.calls + 1

/-- An expression over one type and literals, with a flag that tells whether it is a literal. No call is given
literals only. -/
inductive Typed (type : ValueType) : Bool → Formula → Prop
  | leaf {literal : Bool} {operand : Operand} : operand.Fits type literal → Typed type literal (.leaf operand)
  | binary {literal literal' : Bool} {first second : Formula} (call : BinaryCall) : first.Typed type literal →
      second.Typed type literal' → (literal && literal') = false → Typed type false (.binary call first second)
  | power {base : Formula} {exponent : Int} (plan : PowerPlan) : base.Typed type false → 0 ≤ exponent →
      exponent ≤ 1024 → Typed type (exponent = 0) (.power plan base exponent)
  | abs {value : Formula} : value.Typed type false → Typed type false (.abs value)

end Formula

/-! ## One call -/

theorem BinaryCall.yields {type : ValueType} {literal literal' : Bool} {left right : Operand} (call : BinaryCall)
    (numeric : type.isNumeric) (fits : left.Fits type literal) (fits' : right.Fits type literal')
    (mixed : (literal && literal') = false) : Lowering.Yields type false (call.lowering left right) := by
  cases call with
  | combine call => exact Lowering.yields_combination numeric call fits fits' mixed
  | modulo => exact Lowering.yields_modulo numeric fits fits' mixed
  | reflectedModulo => exact Lowering.yields_modulo numeric fits' fits ((Bool.and_comm _ _).trans mixed)

namespace Transcript

variable {type : ValueType} {literal : Bool} {transcript middle later : Transcript} {calls calls' : Nat}

/-- The later transcript has the results of some more calls, which fit. -/
def Gains (type : ValueType) (calls : Nat) (transcript later : Transcript) : Prop :=
  ∃ results, later.results = transcript.results ++ results ∧ results.length = calls ∧
    ∀ result ∈ results, ∃ literal, result.Fits type literal

theorem Gains.refl (type : ValueType) (transcript : Transcript) : Gains type 0 transcript transcript :=
  ⟨[], (List.append_nil _).symm, rfl, List.forall_mem_nil _⟩

theorem Gains.trans (first : Gains type calls transcript middle) (second : Gains type calls' middle later) :
    Gains type (calls + calls') transcript later := by
  obtain ⟨results, gained, rfl, fits⟩ := first
  obtain ⟨results', gained', rfl, fits'⟩ := second
  refine ⟨results ++ results', ?_, List.length_append, List.forall_mem_append.mpr ⟨fits, fits'⟩⟩
  rw [gained', gained, List.append_assoc]

/-- A call that is not refused adds its result. -/
theorem ask_of_yields {lowering : Except LoweringError (Emit Operand)}
    (yields : Lowering.Yields type literal lowering) (transcript : Transcript) :
    ∃ operand later, transcript.ask lowering = .ok (operand, later) ∧ operand.Fits type literal ∧
      Gains type 1 transcript later := by
  obtain ⟨emit, rfl, returns⟩ := yields
  have fits := returns transcript.context.temps
  exact ⟨_, _, rfl, fits, [_], rfl, rfl, List.forall_mem_singleton.mpr ⟨literal, fits⟩⟩

end Transcript

/-! ## Whole expressions -/

namespace Formula

variable {type : ValueType} {literal : Bool} {formula : Formula}

/-- No call of an expression over a type is refused, and each of its results fits. -/
theorem Typed.lowers (numeric : type.isNumeric) (typed : formula.Typed type literal) (transcript : Transcript) :
    ∃ operand later, formula.lower transcript = .ok (operand, later) ∧ operand.Fits type literal ∧
      Transcript.Gains type formula.calls transcript later := by
  induction typed generalizing transcript with
  | leaf fits => exact ⟨_, transcript, rfl, fits, .refl type transcript⟩
  | binary call _ _ mixed ih ih' =>
      obtain ⟨left, middle, lowered, fits, gains⟩ := ih transcript
      obtain ⟨right, behind, lowered', fits', gains'⟩ := ih' middle
      obtain ⟨operand, later, asked, given, gains''⟩ :=
        Transcript.ask_of_yields (call.yields numeric fits fits' mixed) behind
      refine ⟨operand, later, ?_, given, (gains.trans gains').trans gains''⟩
      rw [lower, bind_eq_ok]
      refine ⟨_, lowered, ?_⟩
      rw [bind_eq_ok]
      exact ⟨_, lowered', asked⟩
  | power plan _ least most ih =>
      obtain ⟨base, middle, lowered, fits, gains⟩ := ih transcript
      obtain ⟨operand, later, asked, given, gains'⟩ :=
        Transcript.ask_of_yields (Lowering.yields_power numeric plan fits least most) middle
      exact ⟨operand, later, bind_eq_ok.mpr ⟨_, lowered, asked⟩, given, gains.trans gains'⟩
  | abs _ ih =>
      obtain ⟨value, middle, lowered, fits, gains⟩ := ih transcript
      obtain ⟨operand, later, asked, given, gains'⟩ :=
        Transcript.ask_of_yields (Lowering.yields_abs numeric fits) middle
      exact ⟨operand, later, bind_eq_ok.mpr ⟨_, lowered, asked⟩, given, gains.trans gains'⟩

/-- In an expression over one number type and finite numbers that are written in the script, with no call given
such numbers only, each call is lowered. Its results have the type unless they are literals themselves, and each of
them may be assigned to every slot of the type. -/
theorem lower_keeps_type (numeric : type.isNumeric) (typed : formula.Typed type literal)
    (transcript : Transcript) :
    ∃ operand later results, formula.lower transcript = .ok (operand, later) ∧ operand.isLiteral = literal ∧
      later.results = transcript.results ++ results ∧ results.length = formula.calls ∧
      ∀ result ∈ operand :: results, (result.isLiteral = false → result.type = type) ∧
        ∀ target : Slot, target.type = type → ∀ (context : Context) (listing : Listing),
          ∃ written, context.lower listing (Lowering.assign target result) = .ok written := by
  obtain ⟨operand, later, lowered, fits, results, gained, length, fits'⟩ := typed.lowers numeric transcript
  refine ⟨operand, later, results, lowered, fits.isLiteral_eq, gained, length, ?_⟩
  have all : ∀ result ∈ operand :: results, ∃ literal, result.Fits type literal :=
    List.forall_mem_cons.mpr ⟨⟨literal, fits⟩, fits'⟩
  intro result member
  obtain ⟨literal', fits''⟩ := all result member
  constructor
  · intro plain
    obtain rfl := fits''.isLiteral_eq.symm.trans plain
    exact fits''.type_eq
  · intro target same context listing
    rw [Lowering.assign_of_fits numeric fits'' same]
    exact ⟨_, rfl⟩

/-- The absolute value of a remainder, taken from a number, with a power zero added. Its leaves are a slot, a
placeholder and literals of both number types. -/
def blend (type : ValueType) : Formula :=
  .binary (.combine (.basic .add))
    (.binary (.combine (.reflected .sub))
      (.abs (.binary .reflectedModulo (.leaf (.slot ((Slot.player "x").typed type)))
        (.leaf (.literal (.double ⟨0x4004000000000000⟩)))))
      (.leaf (.ofLong 7)))
    (.power .shorter (.power .shorter (.leaf (.placeholder "%player.health%" type)) 3) 0)

theorem typed_blend (type : ValueType) : (blend type).Typed type false := by
  have slot : (Operand.slot ((Slot.player "x").typed type)).Fits type false := .declared rfl rfl
  have ratio : (Operand.literal (.double ⟨0x4004000000000000⟩)).Fits type true := .literal rfl (by decide)
  have health : (Operand.placeholder "%player.health%" type).Fits type false := .declared rfl rfl
  have seven : (Operand.ofLong 7).Fits type true := .literal rfl rfl
  have remainder := Typed.binary .reflectedModulo (.leaf slot) (.leaf ratio) rfl
  have difference := Typed.binary (.combine (.reflected .sub)) remainder.abs (.leaf seven) rfl
  have cube := Typed.power .shorter (.leaf health) (by decide : (0 : Int) ≤ 3) (by decide)
  exact .binary _ difference (.power .shorter cube (by decide) (by decide)) rfl

theorem lower_keeps_type_blend :
    (∃ operand later, (blend .long).lower {} = .ok (operand, later) ∧ operand.type = .long) ∧
      ∃ operand later, (blend .double).lower {} = .ok (operand, later) ∧ operand.type = .double ∧
        later.results.length = 6 := by
  obtain ⟨operand, later, _, lowered, plain, -, -, types⟩ := lower_keeps_type rfl (typed_blend .long) {}
  obtain ⟨operand', later', _, lowered', plain', gained, length, types'⟩ :=
    lower_keeps_type rfl (typed_blend .double) {}
  refine ⟨⟨operand, later, lowered, (types operand List.mem_cons_self).1 plain⟩, operand', later', lowered',
    (types' operand' List.mem_cons_self).1 plain', ?_⟩
  rw [gained]
  exact length

end Formula

end StatScript
