import StatScript.Console.Command
import StatScript.Proofs.Compilation.Draft
import StatScript.Proofs.Script.Shape

/-!
# Commands that fail

A command reads and declares, lowers an expression, and then assigns or opens a conditional, and each of these
may fail. What it did before stays. But whatever may still fail once lines are written does not: in a console
no slot ever gets a type, so every target takes every value, and the value of an expression that took code is
never an infinite literal.

Results:
1. `Meets.bind`: a session is followed step by step, with what holds where it succeeds and where it fails.
2. `meets_readOperand` up to `meets_readConditions`: reading writes nothing.
3. `meets_readExpression`: if lines were written, the value can be assigned.
4. `meets_execute`, `untyped_after`: so a command writes nothing unless it succeeds, behind any commands.
5. `run_error_unwritten`: the program is as before, and nothing new is pending.
-/

namespace StatScript

/-! ## Scripts without types -/

namespace Registry

/-- No declared slot has a type. -/
def Untyped (registry : Registry) : Prop :=
  ∀ slot ∈ registry.slots, slot.type = .any

/-- Without types, a declaration is never refused. -/
theorem Untyped.declare {registry : Registry} (untyped : registry.Untyped) {slot : Slot}
    (free : slot.type = .any) :
    ∃ declared registry', registry.declare slot = .ok (declared, registry') ∧ declared.type = .any ∧
      registry'.Untyped := by
  unfold Registry.declare
  rcases found : registry.find? slot.key with _ | existing
  · refine ⟨slot, _, rfl, free, ?_⟩
    exact List.forall_mem_append.mpr ⟨untyped, List.forall_mem_singleton.mpr free⟩
  · refine ⟨existing, registry, if_pos (.inl free), ?_, untyped⟩
    exact untyped existing (List.mem_of_find?_eq_some found)

end Registry

namespace Script

/-- A later script in which nothing more is written. Slots may have been declared, without types, and the
permission of an `else` may be gone. -/
structure Spares (script later : Script) : Prop where
  containers : later.containers = script.containers
  current : later.current = script.current
  branch : later.branch = script.branch
  untyped : later.context.registry.Untyped

section Spares

variable {start script next : Script}

theorem spares_refl (untyped : script.context.registry.Untyped) : script.Spares script :=
  ⟨rfl, rfl, rfl, untyped⟩

theorem Spares.withdrawElse (spares : start.Spares script) : start.Spares script.withdrawElse :=
  ⟨spares.containers, spares.current, spares.branch, spares.untyped⟩

theorem Spares.declare (spares : start.Spares script) {slot : Slot} (free : slot.type = .any) :
    ∃ declared later, script.declare slot = .ok (declared, later) ∧ declared.type = .any ∧
      start.Spares later := by
  obtain ⟨declared, registry, accepted, type, untyped⟩ := spares.untyped.declare free
  refine ⟨declared, { script with context := { script.context with registry } }, ?_, type,
    spares.containers, spares.current, spares.branch, untyped⟩
  rw [Script.declare, Context.declare, accepted]
  rfl

theorem Spares.lines (spares : start.Spares script) : script.lines = start.lines := by
  rw [Script.lines, Script.lines, spares.containers]

theorem Spares.active (spares : start.Spares script) : script.active = start.active := by
  rw [Script.active, Script.active, spares.containers, spares.current]

/-- What is pending is the same. -/
theorem Spares.checkpoint (spares : start.Spares script) : script.checkpoint.1 = start.checkpoint.1 := by
  rw [Script.checkpoint, Script.checkpoint, spares.active]

end Spares

/-! Control statements declare nothing. -/

section Control

variable {script next : Script}

theorem context_goto {name : String} (written : script.goto name = .ok next) :
    next.context = script.context := by
  obtain ⟨-, rfl⟩ := goto_eq_ok written
  rfl

theorem context_openIf {all : Bool} {conditions : List Condition}
    (written : script.openIf all conditions = .ok next) : next.context = script.context := by
  obtain ⟨-, rfl⟩ := openIf_eq_ok written
  rfl

theorem context_openElse (written : script.openElse = .ok next) : next.context = script.context := by
  obtain ⟨-, fused, -, rfl⟩ := openElse_eq_ok written
  rfl

theorem context_close (written : script.close = .ok next) : next.context = script.context := by
  obtain ⟨branch, -, rfl⟩ := close_eq_ok written
  rfl

end Control

end Script

/-- A target without a type takes every finite value. -/
theorem Lowering.assign_eq_ok_of_any {target : Slot} {value : Operand} (free : target.type = .any)
    (finite : value.isFinite) : Lowering.assign target value = .ok (Emit.change target .set value) := by
  have compatible : Check.compatible "assign" (.slot target) value = .ok () := by
    have accepts : (Operand.slot target).type.accepts value.type
        ((Operand.slot target).isLiteral || value.isLiteral) = true := by
      show target.type.accepts _ _ = true
      rw [free]
      rfl
    exact if_pos accepts
  rw [Lowering.assign, compatible, Check.finite, if_pos finite]
  rfl

/-! ## Values of code -/

/-- A power leads to a temp, whatever its base is. -/
theorem Emit.isFinite_power (base : Operand) (n temps : Nat) : (power base n temps).result.isFinite := by
  have first (temps : Nat) : (powerByMultiply base n temps).result.isFinite := by
    unfold powerByMultiply
    rfl
  have second (temps : Nat) : (powerByDivide base n temps).result.isFinite := by
    unfold powerByDivide
    rfl
  rw [power]
  dsimp only [shorter]
  split
  · exact first temps
  · split
    · exact second _
    · exact first temps

namespace Lowering

/-- The code of an operation, if it is not refused, leads to a finite operand. -/
def GivesFinite (lowering : Except LoweringError (Emit Operand)) : Prop :=
  ∀ emit temps, lowering = .ok emit → (emit temps).result.isFinite

theorem givesFinite_ok {emit : Emit Operand} (finite : ∀ temps, (emit temps).result.isFinite) :
    GivesFinite (.ok emit) := by
  rintro _ temps ⟨⟩
  exact finite temps

theorem givesFinite_check {check : Except LoweringError Unit} {rest : Except LoweringError (Emit Operand)}
    (finite : GivesFinite rest) : GivesFinite (check >>= fun _ => rest) := by
  intro emit temps lowered
  obtain ⟨_, -, lowered⟩ := bind_eq_ok.mp lowered
  exact finite emit temps lowered

theorem givesFinite_basic (op : BasicOp) (left right : Operand) : GivesFinite (basic op left right) := by
  refine givesFinite_check (givesFinite_check (givesFinite_check ?_))
  exact givesFinite_ok fun _ => rfl

theorem givesFinite_modulo (left right : Operand) : GivesFinite (modulo left right) := by
  refine givesFinite_check (givesFinite_check (givesFinite_check ?_))
  exact givesFinite_check (givesFinite_check (givesFinite_ok fun _ => rfl))

theorem givesFinite_sign (value : Operand) (scale : Int64) (huge : Bool) :
    GivesFinite (sign value scale huge) := by
  refine givesFinite_check (givesFinite_check (givesFinite_check ?_))
  exact givesFinite_ok fun _ => rfl

theorem givesFinite_abs (value : Operand) : GivesFinite (abs value none) := by
  refine givesFinite_check (givesFinite_check (givesFinite_check ?_))
  exact givesFinite_ok fun _ => rfl

theorem givesFinite_power (base : Operand) (exponent : Int) : GivesFinite (power .shorter base exponent) := by
  unfold power
  split
  · exact nofun
  split
  · exact nofun
  refine givesFinite_check (givesFinite_ok fun temps => ?_)
  unfold Emit.powerBy
  split
  · rfl
  · exact Emit.isFinite_power base _ temps

end Lowering

namespace Console

/-! ## Sessions -/

section Sessions

variable {α β : Type} {script : Script} {gives : α → Script → Prop} {fails : Script → Prop}

/-- What holds of the result and the script behind a session that succeeds, and of the script behind one that
fails. -/
def Meets (session : Session α) (script : Script) (gives : α → Script → Prop) (fails : Script → Prop) :
    Prop :=
  match session.run script with
  | (.ok result, later) => gives result later
  | (.error _, later) => fails later

theorem run_bind (first : Session α) (next : α → Session β) (script : Script) :
    (first >>= next).run script =
      match first.run script with
      | (.ok result, later) => (next result).run later
      | (.error error, later) => (.error error, later) := by
  show (match first.run script with
    | (result, later) => ExceptT.bindCont next result later : Except CommandError β × Script) = _
  rcases first.run script with ⟨_ | _, later⟩ <;> rfl

theorem Meets.bind {first : Session α} {next : α → Session β} {gives' : β → Script → Prop}
    (meets : Meets first script gives fails)
    (meets' : ∀ result later, gives result later → Meets (next result) later gives' fails) :
    Meets (first >>= next) script gives' fails := by
  unfold Meets at meets ⊢
  rw [run_bind]
  rcases ran : first.run script with ⟨_ | result, later⟩
  · rw [ran] at meets
    exact meets
  · rw [ran] at meets
    exact meets' result later meets

theorem Meets.imp {session : Session α} {gives' : α → Script → Prop}
    (meets : Meets session script gives fails)
    (given : ∀ result later, gives result later → gives' result later) :
    Meets session script gives' fails := by
  unfold Meets at meets ⊢
  split at meets
  · exact given _ _ meets
  · exact meets

theorem meets_pure {result : α} (given : gives result script) : Meets (pure result) script gives fails :=
  given

theorem meets_refuse (failed : fails script) (error : Misreading) :
    Meets (Session.refuse error) script gives fails :=
  failed

theorem meets_modify {gives : Unit → Script → Prop} {change : Script → Script}
    (given : gives () (change script)) : Meets (modify change : Session Unit) script gives fails :=
  given

/-- Writing a line gives no slot a type. -/
theorem meets_emit {start : Script} (spares : start.Spares script) (line : Line) :
    Meets (modify fun script => script.emit line : Session Unit) script
      (fun _ later => later.context.registry.Untyped) start.Spares :=
  meets_modify spares.untyped

theorem meets_get :
    Meets (get : Session Script) script (fun result later => script = result ∧ script = later) fails :=
  ⟨rfl, rfl⟩

theorem meets_ofLowering {act : Script → Except LoweringError α × Script}
    (given : ∀ result later, act script = (.ok result, later) → gives result later)
    (failed : ∀ error later, act script = (.error error, later) → fails later) :
    Meets (Session.ofLowering act) script gives fails := by
  refine meets_get.bind ?_
  rintro _ _ ⟨rfl, rfl⟩
  rcases acted : act script with ⟨error | result, later⟩
  · exact failed error later acted
  · exact given result later acted

section Steps

variable {start : Script}

/-- What is lowered writes lines, or fails and writes none. -/
theorem meets_lower (spares : start.Spares script) (lowering : Except LoweringError (Emit α)) :
    Meets (Session.lower lowering) script
      (fun result later => later.context.registry.Untyped ∧
        ∃ emit temps, lowering = .ok emit ∧ result = (emit temps).result) start.Spares := by
  refine meets_ofLowering (fun result later acted => ?_) fun error later acted => ?_
  · rcases lowering with _ | emit
    · cases acted
    · cases acted
      exact ⟨spares.untyped, emit, _, rfl, rfl⟩
  · rcases lowering with _ | _
    · cases acted
      exact spares.withdrawElse
    · cases acted

theorem meets_declare (spares : start.Spares script) {slot : Slot} (free : slot.type = .any) :
    Meets (Session.declare slot) script (fun declared later => start.Spares later ∧ declared.type = .any)
      fails := by
  obtain ⟨declared, later, accepted, type, spares'⟩ := spares.declare free
  refine meets_ofLowering (fun result after acted => ?_) fun error after acted => ?_
  · rw [accepted] at acted
    cases acted
    exact ⟨spares', type⟩
  · rw [accepted] at acted
    cases acted

theorem meets_control (spares : start.Spares script) {act : Script → Except StructureError Script}
    (kept : ∀ {next}, act script = .ok next → next.context = script.context) :
    Meets (Session.control act) script (fun _ later => later.context.registry.Untyped) start.Spares := by
  refine meets_get.bind ?_
  rintro _ _ ⟨rfl, rfl⟩
  rcases acted : act script with error | next
  · exact spares
  · show next.context.registry.Untyped
    rw [kept acted]
    exact spares.untyped

end Steps

end Sessions

/-! ## Reading -/

section Reading

variable {start script : Script}

theorem type_of_slotOfWord {word : String} {slot : Slot} (read : slotOfWord word = .ok slot) :
    slot.type = .any := by
  unfold slotOfWord at read
  split at read
  · cases read
    rfl
  · cases read
    rfl
  · split at read
    · cases read
      rfl
    · cases read
  · cases read

theorem meets_readSlot (spares : start.Spares script) (word : String) :
    Meets (readSlot word) script (fun slot later => start.Spares later ∧ slot.type = .any)
      start.Spares := by
  unfold readSlot
  rcases read : slotOfWord word with error | slot
  · exact meets_refuse spares error
  · exact meets_declare spares (type_of_slotOfWord read)

theorem meets_readOperand (spares : start.Spares script) (word : String) :
    Meets (readOperand word) script (fun _ later => start.Spares later) start.Spares := by
  unfold readOperand
  rcases valueOfWord? word with _ | value
  · exact (meets_readSlot spares word).bind fun slot later given => meets_pure given.1
  · exact meets_pure spares

theorem meets_readOperands (spares : start.Spares script) (words : List String) :
    Meets (readOperands words) script (fun _ later => start.Spares later) start.Spares := by
  induction words generalizing script with
  | nil => exact meets_pure spares
  | cons word rest ih =>
      refine (meets_readOperand spares word).bind fun operand later spares => ?_
      exact (ih spares).bind fun operands later spares => meets_pure spares

theorem meets_readCondition (spares : start.Spares script) (text : String) :
    Meets (readCondition text) script (fun _ later => start.Spares later) start.Spares := by
  unfold readCondition
  split
  · split
    · refine (meets_readOperand spares _).bind fun left later spares => ?_
      refine (meets_readOperand spares _).bind fun right later spares => ?_
      refine meets_ofLowering (fun _ after compared => ?_) fun _ after compared => ?_
      · obtain rfl : later.withdrawElse = after := congrArg Prod.snd compared
        exact spares.withdrawElse
      · obtain rfl : later.withdrawElse = after := congrArg Prod.snd compared
        exact spares.withdrawElse
    · exact meets_refuse spares _
  · exact meets_refuse spares _

theorem meets_readConditions (spares : start.Spares script) (texts : List String) :
    Meets (readConditions texts) script (fun _ later => start.Spares later) start.Spares := by
  induction texts generalizing script with
  | nil => exact meets_pure spares
  | cons text rest ih =>
      refine (meets_readCondition spares text).bind fun condition later spares => ?_
      exact (ih spares).bind fun conditions later spares => meets_pure spares

/-! ### Expressions -/

/-- The value was only read, or can be assigned. -/
def Assignable (start : Script) (value : Operand) (later : Script) : Prop :=
  start.Spares later ∨ later.context.registry.Untyped ∧ value.isFinite

theorem meets_lower_finite (spares : start.Spares script) {lowering : Except LoweringError (Emit Operand)}
    (finite : Lowering.GivesFinite lowering) :
    Meets (Session.lower lowering) script (Assignable start) start.Spares := by
  refine (meets_lower spares lowering).imp ?_
  rintro _ later ⟨untyped, emit, temps, lowered, rfl⟩
  exact .inr ⟨untyped, finite emit temps lowered⟩

theorem givesFinite_operation {operator : String}
    {operation : Operand → Operand → Except LoweringError (Emit Operand)}
    (known : operation? operator = some operation) (left right : Operand) :
    Lowering.GivesFinite (operation left right) := by
  unfold operation? at known
  split at known
  all_goals cases known
  all_goals first | exact Lowering.givesFinite_basic _ left right | exact Lowering.givesFinite_modulo left right

theorem meets_readExpression (spares : start.Spares script) (words : List String) :
    Meets (readExpression words) script (Assignable start) start.Spares := by
  unfold readExpression
  split
  · exact (meets_readOperand spares _).imp fun _ _ spares => .inl spares
  · refine (meets_readOperand spares _).bind fun value later spares => ?_
    exact meets_lower_finite spares (Lowering.givesFinite_sign value 1 false)
  · refine (meets_readOperand spares _).bind fun value later spares => ?_
    exact meets_lower_finite spares (Lowering.givesFinite_abs value)
  · refine (meets_readOperand spares _).bind fun base later spares => ?_
    split
    · exact meets_lower_finite spares (Lowering.givesFinite_power base _)
    · exact meets_refuse spares _
  · refine (meets_readOperand spares _).bind fun left later spares => ?_
    refine (meets_readOperand spares _).bind fun right later spares => ?_
    split
    · next operation known => exact meets_lower_finite spares (givesFinite_operation known left right)
    · -- The permission of an `else` is withdrawn before the operator is found to be unknown.
      have withdrawn : Meets (modify Script.withdrawElse : Session Unit) later
          (fun _ later => start.Spares later) start.Spares := meets_modify spares.withdrawElse
      exact withdrawn.bind fun _ later spares => meets_refuse spares _
  · exact meets_refuse spares _

end Reading

/-! ## Commands -/

section Commands

variable {start script : Script}

/-- Where an expression took code, its value is assigned. -/
theorem meets_assign {target : Slot} {value : Operand} (free : target.type = .any)
    (assignable : Assignable start value script) :
    Meets (Session.lower (Lowering.assign target value)) script
      (fun _ later => later.context.registry.Untyped) start.Spares := by
  rcases assignable with spares | ⟨untyped, finite⟩
  · exact (meets_lower spares _).imp fun _ _ given => given.1
  · -- Lines were written, so this must not fail.
    rw [Lowering.assign_eq_ok_of_any free finite]
    exact untyped

theorem meets_executeIf (spares : start.Spares script) (connective : String) (rest : List String) :
    Meets (executeIf connective rest) script (fun _ later => later.context.registry.Untyped)
      start.Spares := by
  refine (meets_readConditions spares _).bind fun conditions later spares => ?_
  split
  · exact meets_control spares Script.context_openIf
  · exact meets_control spares Script.context_openIf
  · exact meets_refuse spares _

theorem meets_executeAssignOp (spares : start.Spares script) (target operator value : String) :
    Meets (executeAssignOp target operator value) script
      (fun _ later => later.context.registry.Untyped) start.Spares := by
  refine (meets_readSlot spares target).bind fun slot later ⟨spares, _⟩ => ?_
  split
  · refine (meets_readOperand spares value).bind fun value later spares => ?_
    exact (meets_lower spares _).imp fun _ _ given => given.1
  · exact meets_refuse spares _

theorem meets_executeWords (spares : start.Spares script) (command : String) (words : List String) :
    Meets (executeWords command words) script (fun _ later => later.context.registry.Untyped)
      start.Spares := by
  unfold executeWords
  split
  case h_1 => exact meets_executeIf spares _ _
  case h_2 => exact meets_control spares Script.context_openElse
  case h_3 => exact meets_control spares Script.context_close
  case h_4 => exact meets_control spares Script.context_goto
  case h_5 | h_7 | h_8 | h_9 => exact meets_emit spares _
  case h_6 => exact (meets_readOperands spares _).bind fun operands later spares => meets_emit spares _
  case h_10 =>
      split
      · exact meets_emit spares _
      · exact meets_refuse spares _
  case h_11 =>
      refine (meets_readSlot spares _).bind fun target later ⟨spares, free⟩ => ?_
      exact (meets_readExpression spares _).bind fun value later assignable => meets_assign free assignable
  case h_12 =>
      split
      · exact meets_executeAssignOp spares _ _ _
      · exact meets_refuse spares _
  case h_13 => exact meets_refuse spares _

/-- A command writes nothing unless it succeeds, and gives no slot a type. -/
theorem meets_execute (untyped : script.context.registry.Untyped) (command : String) :
    Meets (execute command) script (fun _ later => later.context.registry.Untyped) script.Spares := by
  have spares := Script.spares_refl untyped
  unfold execute
  split
  · exact meets_emit spares _
  · exact meets_executeWords spares command _

end Commands

/-- The script behind commands, of which some may have failed. -/
def after (limits : Limits) (commands : List String) : Script :=
  commands.foldl (fun script command => (run script command).2) (Script.new limits)

theorem untyped_run {script : Script} (untyped : script.context.registry.Untyped) (command : String) :
    (run script command).2.context.registry.Untyped := by
  have meets := meets_execute untyped command
  unfold Meets at meets
  unfold run
  split at meets
  · next ran =>
      rw [ran]
      exact meets
  · next ran =>
      rw [ran]
      exact meets.untyped

theorem untyped_after (limits : Limits) (commands : List String) :
    (after limits commands).context.registry.Untyped :=
  List.foldlRecOn (motive := fun script : Script => script.context.registry.Untyped) commands _
    (List.forall_mem_nil _) fun _ untyped command _ => untyped_run untyped command

/-- Behind any commands, failed ones included, a command that fails leaves the program as it was: the lines and
the depth of each container, which container is current, and which body is open. So nothing is pending that
was not pending before. -/
theorem run_error_unwritten (limits : Limits) (commands : List String) (command : String) :
    let script := after limits commands
    ∀ error later, run script command = (.error error, later) →
      later.lines = script.lines ∧ later.containers = script.containers ∧ later.current = script.current ∧
        later.branch = script.branch ∧ later.checkpoint.1 = script.checkpoint.1 := by
  intro script error later failed
  have meets := meets_execute (untyped_after limits commands) command
  have ran : (execute command).run script = (.error error, later) := failed
  unfold Meets at meets
  rw [ran] at meets
  exact ⟨meets.lines, meets.containers, meets.current, meets.branch, meets.checkpoint⟩

/-- A script in the first body of a conditional, with two lines pending. -/
def opened : Script where
  containers := [(none, { listing :=
    { body := [{ text := "fullHeal", tag := .misc }, { text := "if or () \x7b", tag := .openAny }]
      indent := 1 } })]
  branch := some .first

theorem after_opened : after {} ["fullheal", "if or", "oops"] = opened := rfl

/-- Two slots are declared before the command fails. -/
theorem run_error_unwritten_opened :
    let later := { opened with context := { registry := { slots := [.player "y", .global "z"] } } }
    run (after {} ["fullheal", "if or", "oops"]) "p:y = g:z ** -1" =
        (.error (.lowering (.input (.negativeExponent (-1) (.slot (.global "z"))))), later) ∧
      later.lines = (after {} ["fullheal", "if or", "oops"]).lines ∧
      later.checkpoint.1 = (after {} ["fullheal", "if or", "oops"]).checkpoint.1 := by
  intro later
  have failed : run (after {} ["fullheal", "if or", "oops"]) "p:y = g:z ** -1" =
      (.error (.lowering (.input (.negativeExponent (-1) (.slot (.global "z"))))), later) := by
    rw [after_opened]
    rfl
  obtain ⟨lines, -, -, -, pending⟩ := run_error_unwritten {} _ _ _ later failed
  exact ⟨failed, lines, pending⟩

end Console

end StatScript
