import StatScript.Lowering.Assignment
import StatScript.Lowering.Power
import StatScript.Proofs.Lowering.Mention

/-!
# Scopes

Code may name a temp only behind the change that defines it. A scope holds the temps with such a change; the
numbers handed out may have gone further, since the temps of a power that was not kept have none. Code is
scoped if it reads what is in scope, from however many temps are handed out by then, and each change that
defines a temp takes a number beyond all that came before.

Results:
1. `Writes.tempsIn_text`, `Writes.defined`: scoped changes name temps in scope only, and define each new one
   once, before any other change names it.
2. `Emit.Scoped.bind`: scoped code may be put behind scoped code.
3. `Emit.scoped_basic` up to `Emit.scoped_powerBy`: all code of the lowering is scoped.
-/

namespace StatScript

/-- The temps that are defined so far, of those with numbers up to a bound. -/
structure Scope where
  known : List Nat
  temps : Nat
  bounded : ∀ number ∈ known, 1 ≤ number ∧ number ≤ temps

namespace Scope

/-- No temp is defined yet. -/
def empty : Scope := ⟨[], 0, List.forall_mem_nil _⟩

/-- The scope behind the definition of a new temp. -/
def define (scope : Scope) (number : Nat) (fresh : scope.temps < number) : Scope where
  known := number :: scope.known
  temps := number
  bounded := List.forall_mem_cons.mpr ⟨⟨Nat.zero_lt_of_lt fresh, Nat.le_refl _⟩, fun other member =>
    ⟨(scope.bounded other member).1, Nat.le_of_lt (Nat.lt_of_le_of_lt (scope.bounded other member).2 fresh)⟩⟩

end Scope

/-- A slot that may be named in a scope. -/
def SlotKey.InScope (scope : Scope) (key : SlotKey) : Prop :=
  key.Plain ∨ ∃ number ∈ scope.known, key = .temp number

/-- An operand that may be read in a scope. -/
def Operand.InScope (scope : Scope) (operand : Operand) : Prop :=
  operand.Plain ∨ ∃ cell, operand.slot? = some cell ∧ cell.key.InScope scope

section InScope

variable {scope after : Scope} {key : SlotKey} {operand : Operand}

theorem SlotKey.InScope.mono (inScope : key.InScope scope) (grows : scope.known ⊆ after.known) :
    key.InScope after :=
  inScope.imp_right fun ⟨number, member, same⟩ => ⟨number, grows member, same⟩

theorem Operand.InScope.mono (inScope : operand.InScope scope) (grows : scope.known ⊆ after.known) :
    operand.InScope after :=
  inScope.imp_right fun ⟨cell, held, known⟩ => ⟨cell, held, known.mono grows⟩

theorem Operand.inScope_slot {cell : Slot} (inScope : cell.key.InScope scope) :
    (Operand.slot cell).InScope scope :=
  .inr ⟨cell, rfl, inScope⟩

theorem Operand.InScope.held (inScope : operand.InScope scope) {cell : Slot}
    (held : operand.slot? = some cell) : cell.key.InScope scope := by
  rcases inScope with plain | ⟨other, held', inScope⟩
  · cases operand with
    | slot other =>
        obtain rfl := Option.some.inj held
        exact .inl plain
    | computed temp chain => exact plain.elim
    | literal value => cases held
    | placeholder text type => cases held
  · obtain rfl := Option.some.inj (held'.symm.trans held)
    exact inScope

theorem Operand.inScope_long (scope : Scope) (value : Int64) : (Operand.ofLong value).InScope scope :=
  .inl (plain_long value)

theorem Temp.inScope {temp : Temp} (known : temp.number ∈ scope.known) : temp.slot.key.InScope scope :=
  .inr ⟨temp.number, known, rfl⟩

theorem Operand.inScope_result {temp : Temp} (known : temp.number ∈ scope.known) (operation : Operation)
    (operands : List Operand) : (Emit.result temp operation operands).InScope scope :=
  .inr ⟨temp.slot, rfl, temp.inScope known⟩

theorem Operand.inScope_relabel (inScope : operand.InScope scope) (operation : Operation)
    (operands : List Operand) : (Emit.relabel operand operation operands).InScope scope := by
  cases operand with
  | computed temp chain =>
      rcases inScope with plain | held
      · exact plain.elim
      · exact .inr held
  | slot _ | literal _ | placeholder _ _ => exact inScope

/-! ## Names -/

theorem SlotKey.InScope.tempsIn (inScope : key.InScope scope) {name : String}
    (named : name ∈ key.names.flatMap tempsIn) : ∃ number ∈ scope.known, name = (SlotKey.temp number).name := by
  rcases inScope with plain | ⟨number, member, rfl⟩
  · rw [plain.tempsIn] at named
    cases named
  · refine ⟨number, member, ?_⟩
    rw [names_temp] at named
    exact List.mem_singleton.mp named

theorem Operand.InScope.tempsIn (inScope : operand.InScope scope) {name : String}
    (named : name ∈ tempsIn operand.right) : ∃ number ∈ scope.known, name = (SlotKey.temp number).name := by
  rcases inScope with plain | ⟨cell, held, known⟩
  · rw [plain.tempsIn] at named
    cases named
  · rw [right_of_slot? held, Slot.right, tempsIn_right] at named
    exact known.tempsIn named

end InScope

/-! ## Changes -/

/-- A change of a slot in scope by an operand in scope. -/
structure Change.InScope (scope : Scope) (change : Change) : Prop where
  target : change.target.key.InScope scope
  value : change.value.InScope scope

theorem Change.InScope.tempsIn {scope : Scope} {change : Change} (inScope : change.InScope scope)
    {name : String} (named : name ∈ tempsIn change.text) :
    ∃ number ∈ scope.known, name = (SlotKey.temp number).name := by
  rw [tempsIn_text] at named
  rcases List.mem_append.mp named with named | named
  · exact inScope.target.tempsIn named
  · exact inScope.value.tempsIn named

/-- What is named in scope is not a temp that is unknown there. -/
theorem not_named {scope : Scope} {names : List String} {number : Nat}
    (inScope : ∀ {name}, name ∈ names → ∃ number ∈ scope.known, name = (SlotKey.temp number).name)
    (unknown : number ∉ scope.known) : (SlotKey.temp number).name ∉ names := by
  intro named
  obtain ⟨other, known, same⟩ := inScope named
  obtain rfl := SlotKey.temp_name_injective same
  exact unknown known

/-- The change that defines a temp. -/
def defining (temp : Temp) (value : Operand) : Change :=
  { target := temp.slot, mode := .set, value, defining := true }

theorem inScope_defining {scope : Scope} {temp : Temp} {value : Operand} (fresh : scope.temps < temp.number)
    (inScope : value.InScope scope) : (defining temp value).InScope (scope.define temp.number fresh) :=
  ⟨temp.inScope List.mem_cons_self, inScope.mono (List.subset_cons_self _ _)⟩

/-- `Writes scope changes after`: changes that name only what is in scope before them, and leave another
scope. -/
inductive Writes : Scope → List Change → Scope → Prop
  | done (scope : Scope) : Writes scope [] scope
  | define {scope after : Scope} {temp : Temp} {value : Operand} {changes : List Change}
      (fresh : scope.temps < temp.number) :
      value.InScope scope → Writes (scope.define temp.number fresh) changes after →
      Writes scope (defining temp value :: changes) after
  | change {scope after : Scope} {change : Change} {changes : List Change} :
      change.defining = false → change.InScope scope → Writes scope changes after →
      Writes scope (change :: changes) after

namespace Writes

variable {scope middle after : Scope} {first second changes : List Change}

theorem append (writes : Writes scope first middle) (writes' : Writes middle second after) :
    Writes scope (first ++ second) after := by
  induction writes with
  | done => exact writes'
  | define fresh value _ ih => exact .define fresh value (ih writes')
  | change other inScope _ ih => exact .change other inScope (ih writes')

theorem grows (writes : Writes scope changes after) : scope.known ⊆ after.known := by
  induction writes with
  | done => exact List.Subset.refl _
  | define _ _ _ ih => exact List.subset_of_cons_subset ih
  | change _ _ _ ih => exact ih

/-- All temps in the text of a change are in scope at the end. -/
theorem tempsIn_text (writes : Writes scope changes after) {change : Change} (member : change ∈ changes)
    {name : String} (named : name ∈ tempsIn change.text) :
    ∃ number ∈ after.known, name = (SlotKey.temp number).name := by
  induction writes with
  | done => cases member
  | define fresh value writes ih =>
      rcases List.mem_cons.mp member with rfl | member
      · obtain ⟨number, known, same⟩ := (inScope_defining fresh value).tempsIn named
        exact ⟨number, writes.grows known, same⟩
      · exact ih member
  | change _ inScope writes ih =>
      rcases List.mem_cons.mp member with rfl | member
      · obtain ⟨number, known, same⟩ := inScope.tempsIn named
        exact ⟨number, writes.grows known, same⟩
      · exact ih member

/-- A change that defines is the definition of a temp beyond those handed out before, which stays in scope. -/
theorem exists_defining (writes : Writes scope changes after) {change : Change} (member : change ∈ changes)
    (defines : change.defining) :
    ∃ temp value, change = defining temp value ∧ scope.temps < temp.number ∧ temp.number ∈ after.known := by
  induction writes with
  | done => cases member
  | @define scope after temp value _ fresh _ writes ih =>
      rcases List.mem_cons.mp member with rfl | member
      · exact ⟨temp, value, rfl, fresh, writes.grows List.mem_cons_self⟩
      · obtain ⟨other, value, rfl, more, known⟩ := ih member
        exact ⟨other, value, rfl, Nat.lt_trans fresh more, known⟩
  | change other _ _ ih =>
      rcases List.mem_cons.mp member with rfl | member
      · rw [other] at defines
        cases defines
      · exact ih member

/-- A temp that comes into scope is defined by one change, and no change before it, nor its own value, names
the temp. -/
theorem defined (writes : Writes scope changes after) {number : Nat} (known : number ∈ after.known)
    (new : number ∉ scope.known) :
    ∃ before temp value behind, changes = before ++ defining temp value :: behind ∧ temp.number = number ∧
      (∀ change ∈ before, (SlotKey.temp number).name ∉ tempsIn change.text) ∧
      (SlotKey.temp number).name ∉ tempsIn value.right ∧
      ∀ change ∈ behind, change.defining → change.target.key ≠ .temp number := by
  induction writes with
  | done => exact absurd known new
  | @define scope after temp value changes fresh inScope writes ih =>
      by_cases own : number = temp.number
      · refine ⟨[], temp, value, changes, rfl, own.symm, List.forall_mem_nil _,
          not_named inScope.tempsIn new, ?_⟩
        -- Further definitions take greater numbers.
        intro change member defines same
        obtain ⟨other, value', rfl, more, -⟩ := writes.exists_defining member defines
        have equal : other.number = number := SlotKey.temp.inj same
        have greater : temp.number < other.number := more
        omega
      · have unknown : number ∉ (scope.define temp.number fresh).known :=
          fun member => (List.mem_cons.mp member).elim own new
        obtain ⟨before, temp', value', behind, rfl, same, earlier, rest⟩ := ih known unknown
        refine ⟨defining temp value :: before, temp', value', behind, rfl, same, ?_, rest⟩
        exact List.forall_mem_cons.mpr ⟨not_named (inScope_defining fresh inScope).tempsIn unknown, earlier⟩
  | @change scope after change changes _ inScope _ ih =>
      obtain ⟨before, temp, value, behind, rfl, same, earlier, rest⟩ := ih known new
      refine ⟨change :: before, temp, value, behind, rfl, same, ?_, rest⟩
      exact List.forall_mem_cons.mpr ⟨not_named inScope.tempsIn new, earlier⟩

end Writes

/-! ## Code -/

namespace Emit

/-- Code that writes in a scope, from any number of temps not below it. -/
def Scoped {α : Type} (scope : Scope) (emit : Emit α) (gives : Scope → α → Prop) : Prop :=
  ∀ temps, scope.temps ≤ temps → temps ≤ (emit temps).temps ∧
    ∃ after, Writes scope (emit temps).changes after ∧ after.temps ≤ (emit temps).temps ∧
      gives after (emit temps).result

section Scoped

variable {α β : Type} {scope : Scope} {left right value base : Operand} {temp : Temp}

theorem scoped_pure {gives : Scope → α → Prop} {result : α} (given : gives scope result) :
    Scoped scope (pure result) gives :=
  fun temps bound => ⟨Nat.le_refl temps, scope, .done scope, bound, given⟩

theorem Scoped.bind {emit : Emit α} {next : α → Emit β} {gives : Scope → α → Prop}
    {gives' : Scope → β → Prop} (emits : Scoped scope emit gives)
    (emits' : ∀ after result, scope.known ⊆ after.known → gives after result →
      Scoped after (next result) gives') : Scoped scope (emit >>= next) gives' := by
  intro temps bound
  obtain ⟨more, middle, writes, bound', given⟩ := emits temps bound
  obtain ⟨more', after, writes', bound'', given'⟩ := emits' middle _ writes.grows given _ bound'
  exact ⟨Nat.le_trans more more', after, writes.append writes', bound'', given'⟩

theorem scoped_define (inScope : value.InScope scope) (type : ValueType) :
    Scoped scope (define value type) fun after temp => temp.number ∈ after.known := by
  intro temps bound
  have fresh : scope.temps < temps + 1 := Nat.lt_succ_of_le bound
  exact ⟨Nat.le_succ temps, scope.define (temps + 1) fresh, .define fresh inScope (.done _), Nat.le_refl _,
    List.mem_cons_self⟩

theorem scoped_change {target : Slot} (inScope : target.key.InScope scope) (mode : Mode)
    (inScope' : value.InScope scope) : Scoped scope (change target mode value) fun _ _ => True :=
  fun temps bound =>
    ⟨Nat.le_refl temps, scope, .change rfl ⟨inScope, inScope'⟩ (.done scope), bound, trivial⟩

theorem scoped_combine (known : temp.number ∈ scope.known) (op : BasicOp) (inScope : value.InScope scope) :
    Scoped scope (combine temp op value) fun _ _ => True :=
  scoped_change (temp.inScope known) _ inScope

theorem scoped_basic (op : BasicOp) (inScope : left.InScope scope) (inScope' : right.InScope scope) :
    Scoped scope (basic op left right) Operand.InScope := by
  refine (scoped_define inScope _).bind fun _ temp grows known => ?_
  refine (scoped_combine known op (inScope'.mono grows)).bind fun _ _ grows' _ => ?_
  exact scoped_pure (Operand.inScope_result (grows' known) _ _)

/-! ## Modulo, sign and absolute value -/

theorem scoped_remainder (inScope : left.InScope scope) (inScope' : right.InScope scope) :
    Scoped scope (remainder left right) Operand.InScope := by
  refine (scoped_basic .div inScope inScope').bind fun _ quotient grows known => ?_
  refine (scoped_basic .mul known (inScope'.mono grows)).bind fun _ product grows' known' => ?_
  exact scoped_basic .sub ((inScope.mono grows).mono grows') known'

theorem scoped_modulo (inScope : left.InScope scope) (inScope' : right.InScope scope) :
    Scoped scope (modulo left right) Operand.InScope := by
  refine (scoped_remainder inScope inScope').bind fun _ raw grows known => ?_
  refine (scoped_basic .add known (inScope'.mono grows)).bind fun _ moved grows' known' => ?_
  refine (scoped_remainder known' ((inScope'.mono grows).mono grows')).bind fun _ rest _ known'' => ?_
  exact scoped_pure (Operand.inScope_relabel known'' _ _)

theorem scoped_halve (known : temp.number ∈ scope.known) (huge : Bool) :
    Scoped scope (halve huge temp) fun _ _ => True := by
  cases huge with
  | true => exact scoped_combine known .div (Operand.inScope_long scope 2)
  | false => exact scoped_pure trivial

theorem scoped_sign (inScope : value.InScope scope) (scale : Int64) (huge : Bool) :
    Scoped scope (sign value scale huge) Operand.InScope := by
  have long := Operand.inScope_long
  refine (scoped_define inScope _).bind fun _ temp _ known => ?_
  refine (scoped_halve known huge).bind fun _ _ grows _ => ?_
  replace known := grows known
  refine (scoped_combine known .add (long _ pivot)).bind fun _ _ grows _ => ?_
  replace known := grows known
  refine (scoped_combine known .div (long _ pivot)).bind fun _ _ grows _ => ?_
  replace known := grows known
  refine (scoped_combine known .mul (long _ (scale * 2))).bind fun _ _ grows _ => ?_
  replace known := grows known
  refine (scoped_combine known .sub (long _ scale)).bind fun _ _ grows _ => ?_
  exact scoped_pure (Operand.inScope_result (grows known) _ _)

theorem scoped_knownSign (inScope : value.InScope scope) {known : Option Operand}
    (inScope' : ∀ sign ∈ known, sign.InScope scope) :
    Scoped scope (knownSign value known) Operand.InScope := by
  cases known with
  | some sign => exact scoped_pure (inScope' sign rfl)
  | none => exact scoped_sign inScope 1 false

theorem scoped_abs (inScope : value.InScope scope) {known : Option Operand}
    (inScope' : ∀ sign ∈ known, sign.InScope scope) : Scoped scope (abs value known) Operand.InScope := by
  refine (scoped_knownSign inScope inScope').bind fun _ factor grows known => ?_
  refine (scoped_basic .mul (inScope.mono grows) known).bind fun _ product _ known' => ?_
  exact scoped_pure (Operand.inScope_relabel known' _ _)

/-! ## In-place modulo -/

theorem scoped_correctSign {target : Slot} (inScope : target.key.InScope scope)
    (inScope' : value.InScope scope) : Scoped scope (correctSign target value) fun _ _ => True := by
  have long := Operand.inScope_long
  refine (scoped_sign (Operand.inScope_slot inScope) 1 false).bind fun _ sign grows known => ?_
  replace inScope := inScope.mono grows
  replace inScope' := inScope'.mono grows
  refine (scoped_basic .sub (long _ 1) known).bind fun _ twice grows known => ?_
  replace inScope := inScope.mono grows
  replace inScope' := inScope'.mono grows
  refine (scoped_basic .div known (long _ 2)).bind fun _ negative grows known => ?_
  refine (scoped_basic .mul known (inScope'.mono grows)).bind fun _ correction grows' known' => ?_
  exact scoped_change ((inScope.mono grows).mono grows') _ known'

theorem scoped_moduloInPlace {target : Slot} (inScope : target.key.InScope scope)
    (inScope' : value.InScope scope) : Scoped scope (moduloInPlace target value) fun _ _ => True := by
  refine (scoped_modulo (Operand.inScope_slot inScope) inScope').bind fun _ rest grows known => ?_
  refine (scoped_change (inScope.mono grows) _ known).bind fun _ _ grows' _ => ?_
  split
  · exact scoped_pure trivial
  · exact scoped_correctSign ((inScope.mono grows).mono grows') ((inScope'.mono grows).mono grows')

/-! ## Powers -/

theorem scoped_square (known : temp.number ∈ scope.known) (times : Nat) :
    Scoped scope (square temp times) fun _ _ => True := by
  induction times generalizing scope with
  | zero => exact scoped_pure trivial
  | succ times ih =>
      have self : (Operand.slot temp.slot).InScope scope := Operand.inScope_slot (temp.inScope known)
      exact (scoped_combine known .mul self).bind fun _ _ grows _ => ih (grows known)

/-- Both ways are written in the scope before the choice, so the one that is kept does not miss the other. -/
theorem scoped_shorter {first second : Emit Operand} (emits : Scoped scope first Operand.InScope)
    (emits' : Scoped scope second Operand.InScope) : Scoped scope (shorter first second) Operand.InScope := by
  intro temps bound
  obtain ⟨more, after, writes, bound', given⟩ := emits temps bound
  obtain ⟨more', after', writes', bound'', given'⟩ := emits' _ (Nat.le_trans bound more)
  simp only [shorter]
  split_ifs with single less
  · exact ⟨more, after, writes, bound', given⟩
  · exact ⟨Nat.le_trans more more', after', writes', bound'', given'⟩
  · exact ⟨Nat.le_trans more more', after, writes, Nat.le_trans bound' more', given⟩

/-- What is known of the code at one exponent. -/
structure ScopedPower (base : Operand) (n : Nat) : Prop where
  multiply : ∀ {scope}, base.InScope scope → Scoped scope (powerByMultiply base n) Operand.InScope
  shorter : ∀ {scope}, base.InScope scope → Scoped scope (power base n) Operand.InScope

section Exponents

variable {n : Nat}

theorem scoped_multiplyRest (ih : ∀ m < n, ScopedPower base m) (known : temp.number ∈ scope.known)
    (inScope : base.InScope scope) : Scoped scope (multiplyRest base temp n) fun _ _ => True := by
  rw [multiplyRest]
  split
  · exact scoped_combine known .mul inScope
  split
  · next rest =>
      refine ((ih _ (restOf_lt rest)).shorter inScope).bind fun _ part grows given => ?_
      exact scoped_combine (grows known) .mul given
  · exact scoped_pure trivial

/-- Squaring a temp of its own and a tail that changes it. -/
theorem scoped_accumulate {tail : Temp → Emit Unit} (inScope : base.InScope scope) (squarings : Nat)
    (emits : ∀ {after : Scope} {temp : Temp}, temp.number ∈ after.known → base.InScope after →
      Scoped after (tail temp) fun _ _ => True) :
    Scoped scope (do
      let temp ← define base base.type
      square temp squarings
      tail temp
      return result temp (.pow n) [base]) Operand.InScope := by
  refine (scoped_define inScope _).bind fun _ temp grows known => ?_
  replace inScope := inScope.mono grows
  refine (scoped_square known squarings).bind fun _ _ grows _ => ?_
  refine (emits (grows known) (inScope.mono grows)).bind fun _ _ grows' _ => ?_
  exact scoped_pure (Operand.inScope_result (grows' (grows known)) _ _)

theorem scoped_powerByMultiply (ih : ∀ m < n, ScopedPower base m) (inScope : base.InScope scope) :
    Scoped scope (powerByMultiply base n) Operand.InScope := by
  rw [powerByMultiply]
  exact scoped_accumulate inScope _ (scoped_multiplyRest ih)

theorem scoped_divideExcess (ih : ∀ m < n, ScopedPower base m) (known : temp.number ∈ scope.known)
    (inScope : base.InScope scope) : Scoped scope (divideExcess base temp n) fun _ _ => True := by
  have multiply (m : Nat) (le : m ≤ n) : Scoped scope (powerByMultiply base m) Operand.InScope :=
    scoped_powerByMultiply (fun k less => ih k (Nat.lt_of_lt_of_le less le)) inScope
  rw [divideExcess]
  split
  · exact scoped_combine known .div inScope
  split
  · refine (scoped_combine known .div inScope).bind fun _ _ grows _ => ?_
    exact scoped_combine (grows known) .div (inScope.mono grows)
  split
  · next excess _ =>
      refine (multiply _ (excessOf_le excess)).bind fun _ divisor grows given => ?_
      exact scoped_combine (grows known) .div given
  · next excess plain =>
      refine ((ih _ (excessOf_lt excess plain)).shorter inScope).bind fun _ divisor grows given => ?_
      exact scoped_combine (grows known) .div given

theorem scoped_powerByDivide (ih : ∀ m < n, ScopedPower base m) (inScope : base.InScope scope) :
    Scoped scope (powerByDivide base n) Operand.InScope := by
  rw [powerByDivide]
  exact scoped_accumulate inScope _ (scoped_divideExcess ih)

theorem scopedPower (base : Operand) (n : Nat) : ScopedPower base n := by
  induction n using Nat.strong_induction_on with
  | h n ih =>
      refine ⟨scoped_powerByMultiply ih, fun inScope => ?_⟩
      rw [power]
      exact scoped_shorter (scoped_powerByMultiply ih inScope) (scoped_powerByDivide ih inScope)

end Exponents

theorem scoped_powerBy (plan : PowerPlan) (inScope : base.InScope scope) (n : Nat) :
    Scoped scope (powerBy plan base n) Operand.InScope := by
  unfold powerBy
  split
  · exact scoped_pure (Operand.inScope_long scope 1)
  cases plan with
  | shorter => exact (scopedPower base n).shorter inScope
  | multiply => exact (scopedPower base n).multiply inScope
  | divide => exact scoped_powerByDivide (fun m _ => scopedPower base m) inScope

end Scoped

end Emit

end StatScript
