import StatScript.Proofs.Compilation.Expression

/-!
# Statements

Values and cells agree on ordinary slots only, because cells also hold temps.

Results:
1. `Statement.performs_write`: the changes of a statement do to the cells what it does to the values.
2. `performs_writeStatements`: so do the changes of statements in a row.
-/

namespace StatScript

open Draft

/-- The cells of ordinary slots have given values. -/
def Holds (values : Values) (store : Store) : Prop :=
  ∀ key : SlotKey, key.Ordinary → store.values key = values key

namespace Holds

variable {values : Values} {store : Store}

theorem keeps {temps temps' : Nat} {later : Store} (holds : Holds values store)
    (keeps : Keeps temps temps' store later) : Holds values later := by
  intro key ordinary
  rw [keeps.values_eq ordinary, holds key ordinary]

theorem eval_eq {expr : Expr} (holds : Holds values store)
    (ordinary : ∀ cell ∈ expr.slots, cell.key.Ordinary) :
    expr.eval store.values = expr.eval values :=
  Expr.eval_congr fun cell member => holds cell.key (ordinary cell member)

theorem set {key : SlotKey} (holds : Holds values store) (ordinary : key.Ordinary) (number : Int64) :
    Holds (values.set key number) (store.set key.left number) := by
  intro other ordinary'
  rw [Store.values, Store.get_set, Values.set]
  by_cases same : other = key
  · rw [if_pos same, if_pos (congrArg SlotKey.left same)]
  · rw [if_neg same, if_neg]
    · exact holds other ordinary'
    · intro left
      exact same (SlotKey.left_injective ordinary'.toSound ordinary.toSound left)

end Holds

/-- The changes do to the cells what `effect` does to the values. -/
def Performs (changes : List Change) (effect : Values → Option Values) : Prop :=
  ∀ values values' store, Holds values store → effect values = some values' →
    ∃ later, store.performAll changes = .ok later ∧ Holds values' later

theorem Performs.append {first second : List Change} {effect effect' : Values → Option Values}
    (performs : Performs first effect) (performs' : Performs second effect') :
    Performs (first ++ second) fun values => (effect values).bind effect' := by
  intro values values'' store holds result
  obtain ⟨values', middle, last⟩ := Option.bind_eq_some_iff.mp result
  obtain ⟨next, performed, holds'⟩ := performs values values' store holds middle
  obtain ⟨later, performed', holds''⟩ := performs' values' values'' next holds' last
  exact ⟨later, by rw [Store.performAll_append performed, performed'], holds''⟩

/-- A change of a slot by the value of an expression, behind the code of the expression. -/
theorem performs_change {code : Code Operand} {temps : Nat} {expr : Expr}
    (computes : Computes code temps fun store number => expr.eval store.values = some number)
    (plain : ∀ cell ∈ expr.slots, cell.key.Ordinary) {target : Slot} (ordinary : target.key.Ordinary)
    {mode : Mode} {effect : Values → Option Values}
    (gives : ∀ {values values'}, effect values = some values' → ∃ operand number,
      expr.eval values = some operand ∧
      Store.outcome mode (values target.key) operand = .ok number ∧
      values' = values.set target.key number) :
    Performs (code.changes ++ [{ target, mode, value := code.result }]) effect := by
  intro values values' store holds result
  obtain ⟨operand, number, value, combined, rfl⟩ := gives result
  rw [← holds.eval_eq plain] at value
  obtain ⟨middle, performed, keeps, read⟩ := computes.run store operand value
  have holds' := holds.keeps keeps
  have changed : middle.perform (Change.text { target, mode, value := code.result }) =
      .ok (middle.set target.left number) := by
    refine perform_eq_ok ⟨ordinary.toSound, computes.result.readable⟩ ?_
    show Store.outcome mode (middle.values target.key) (code.result.read middle) = .ok number
    rw [holds' target.key ordinary, read, combined]
  refine ⟨middle.set target.left number, ?_, holds'.set ordinary number⟩
  rw [Store.performAll_append performed, Store.performAll_cons changed]
  rfl

theorem Lowering.assign_eq_ok {target : Slot} {value : Operand} {emit : Emit Unit}
    (lowered : Lowering.assign target value = .ok emit) : emit = Emit.change target .set value := by
  obtain ⟨_, -, lowered⟩ := bind_eq_ok.mp lowered
  obtain ⟨_, -, lowered⟩ := bind_eq_ok.mp lowered
  exact (Except.ok.inj lowered).symm

theorem Lowering.assignOp_eq_ok {target : Slot} {op : BasicOp} {value : Operand} {emit : Emit Unit}
    (lowered : Lowering.assignOp target (.basic op) value = .ok emit) :
    emit = Emit.change target (.combine op) value := by
  obtain ⟨_, -, lowered⟩ := bind_eq_ok.mp lowered
  obtain ⟨_, -, lowered⟩ := bind_eq_ok.mp lowered
  exact (Except.ok.inj lowered).symm

section Writing

variable {limits : Limits} {draft : Draft} {next : Script}

/-- An expression is written, and then the change of a slot by its value. -/
theorem performs_lowered {expr : Expr} (plain : ∀ cell ∈ expr.slots, cell.key.Ordinary) {target : Slot}
    (ordinary : target.key.Ordinary) {mode : Mode}
    {lowering : Operand → Except LoweringError (Emit Unit)}
    (lowers : ∀ {operand emit}, lowering operand = .ok emit → emit = Emit.change target mode operand)
    (written : (do
      let (operand, script) ← expr.write (draft.script limits)
      let (_, script) ← script.lowered (lowering operand)
      return script) = .ok next)
    {effect : Values → Option Values}
    (gives : ∀ {values values'}, effect values = some values' → ∃ operand number,
      expr.eval values = some operand ∧
      Store.outcome mode (values target.key) operand = .ok number ∧
      values' = values.set target.key number) :
    ∃ later changes, next = script limits later ∧ draft.Grows changes later ∧
      Performs changes effect := by
  obtain ⟨⟨operand, _⟩, evaluated, rest⟩ := bind_eq_ok.mp written
  obtain ⟨draft', changes, rfl, grows, -, computes⟩ := Expr.computes_write plain evaluated
  obtain ⟨⟨_, _⟩, changed, rest⟩ := bind_eq_ok.mp rest
  obtain ⟨emit, lowered, -, rfl⟩ := lowered_eq_ok changed
  obtain rfl := lowers lowered
  obtain rfl := Except.ok.inj rest
  exact ⟨_, _, rfl, grows.trans (grows_append (Nat.le_refl _) _),
    performs_change computes plain ordinary gives⟩

/-- The changes of a statement do to the cells what it does to the values. -/
theorem Statement.performs_write {statement : Statement}
    (ordinary : ∀ cell ∈ statement.slots, cell.key.Ordinary)
    (written : statement.write (draft.script limits) = .ok next) :
    ∃ later changes, next = script limits later ∧ draft.Grows changes later ∧
      Performs changes fun values => statement.eval values := by
  cases statement with
  | assign target value =>
      obtain ⟨plain, plain'⟩ := List.forall_mem_cons.mp ordinary
      refine performs_lowered plain' plain Lowering.assign_eq_ok written ?_
      intro values values' result
      obtain ⟨number, evaluated, result⟩ := Option.bind_eq_some_iff.mp result
      exact ⟨number, number, evaluated, rfl, (Option.some.inj result).symm⟩
  | update target op value =>
      obtain ⟨plain, plain'⟩ := List.forall_mem_cons.mp ordinary
      refine performs_lowered plain' plain Lowering.assignOp_eq_ok written ?_
      intro values values' result
      obtain ⟨operand, evaluated, result⟩ := Option.bind_eq_some_iff.mp result
      obtain ⟨number, applied, result⟩ := Option.bind_eq_some_iff.mp result
      exact ⟨operand, number, evaluated, calculate_eq_ok applied, (Option.some.inj result).symm⟩

/-- The changes of statements do to the cells what the statements do to the values. -/
theorem performs_writeStatements {statements : List Statement}
    (ordinary : ∀ cell ∈ statements.flatMap Statement.slots, cell.key.Ordinary)
    (written : writeStatements statements (draft.script limits) = .ok next) :
    ∃ later changes, next = script limits later ∧ draft.Grows changes later ∧
      Performs changes fun values => evalStatements values statements := by
  induction statements generalizing draft with
  | nil =>
      obtain rfl := Except.ok.inj written
      refine ⟨draft, [], rfl, .refl draft, ?_⟩
      intro values values' store holds result
      obtain rfl := Option.some.inj result
      exact ⟨store, rfl, holds⟩
  | cons statement rest ih =>
      rw [List.flatMap_cons] at ordinary
      obtain ⟨plain, plain'⟩ := List.forall_mem_append.mp ordinary
      obtain ⟨_, first, written⟩ := bind_eq_ok.mp written
      obtain ⟨draft', changes, rfl, grows, performs⟩ := Statement.performs_write plain first
      obtain ⟨later, changes', rfl, grows', performs'⟩ := ih plain' written
      exact ⟨later, changes ++ changes', rfl, grows.trans grows', performs.append performs'⟩

end Writing

end StatScript
