import StatScript.Proofs.Compilation.Expression

/-!
# Premises

The expressions of premises are written before their conditional. All of their operands keep their
numbers until it is reached.

Results:
1. `compare_eq_ok`: a condition tests how the numbers of two operands compare, and it can be read.
2. `decides_writePremises`: the changes of premises lead to cells in which each test has the truth of its
   premise.
-/

namespace StatScript

open Draft

/-! ## Tests -/

/-- A test that may stand behind `temps` temps. -/
structure Test.Usable (temps : Nat) (test : Test) : Prop where
  subject : test.subject.Testable
  within : test.subject.Within temps
  value : test.value.Usable temps
  testable : test.value.Testable

namespace Test.Usable

variable {temps temps' : Nat} {test : Test}

theorem citable (usable : test.Usable temps) : test.Citable :=
  ⟨usable.subject.citable, usable.value.readable.citable usable.testable⟩

theorem mono (usable : test.Usable temps) (le : temps ≤ temps') : test.Usable temps' :=
  ⟨usable.subject, fun number temp => Nat.le_trans (usable.within number temp) le,
    usable.value.mono le, usable.testable⟩

theorem holds_eq {store later : Store} (usable : test.Usable temps)
    (keeps : Keeps temps temps' store later) : test.holds later = test.holds store := by
  rw [holds, holds, keeps.get_eq usable.subject.toSound usable.within, usable.value.read_eq keeps]

end Test.Usable

theorem Operand.subject?_eq {operand : Operand} (citable : operand.Citable) :
    operand.subject? = operand.slot?.map Slot.left := by
  cases operand with
  | slot cell => rfl
  | computed temp chain => rfl
  | literal value => rfl
  | placeholder text type => cases citable

/-- `Tests left comparison right test`: the test compares the left operand with the right one, or the other way
round where only the right one is a cell. -/
inductive Tests (left : Operand) (comparison : Comparison) (right : Operand) : Test → Prop
  | direct {cell : Slot} : left.slot? = some cell → Tests left comparison right ⟨cell.key, comparison, right⟩
  | turned {cell : Slot} : right.slot? = some cell →
      Tests left comparison right ⟨cell.key, comparison.flipped, left⟩

section Tests

variable {left right : Operand} {comparison : Comparison} {test : Test}

/-- A test compares the numbers of the operands, whichever stands on the left. -/
theorem Tests.holds_eq (tests : Tests left comparison right test) (store : Store) :
    test.holds store = comparison.relates (left.read store) (right.read store) := by
  cases tests with
  | direct holder =>
      rw [Operand.read_of_slot? holder, ← Comparison.holds_eq]
      rfl
  | turned holder =>
      rw [Operand.read_of_slot? holder, ← Comparison.relates_flipped, ← Comparison.holds_eq]
      rfl

theorem Tests.citable (tests : Tests left comparison right test) (citable : left.Citable)
    (citable' : right.Citable) : test.Citable := by
  cases tests with
  | direct holder => exact ⟨citable.key holder, citable'⟩
  | turned holder => exact ⟨citable'.key holder, citable⟩

theorem Tests.usable {temps : Nat} (tests : Tests left comparison right test)
    (usable : left.Usable temps) (usable' : right.Usable temps) (testable : left.Testable)
    (testable' : right.Testable) : test.Usable temps := by
  cases tests with
  | @direct cell holder => exact ⟨testable cell holder, usable.within cell holder, usable', testable'⟩
  | @turned cell holder => exact ⟨testable' cell holder, usable'.within cell holder, usable, testable⟩

/-- A condition tests how the numbers of two operands compare. -/
theorem compare_eq_ok {condition : Condition}
    (lowered : Lowering.compare left comparison right = .ok condition) (citable : left.Citable)
    (citable' : right.Citable) :
    ∃ test, condition.text = test.text ∧ Tests left comparison right test := by
  obtain ⟨_, -, lowered⟩ := bind_eq_ok.mp lowered
  obtain ⟨_, -, lowered⟩ := bind_eq_ok.mp lowered
  obtain ⟨_, -, lowered⟩ := bind_eq_ok.mp lowered
  rw [Operand.subject?_eq citable, Operand.subject?_eq citable'] at lowered
  cases holder : left.slot? with
  | some cell =>
      rw [holder] at lowered
      obtain rfl := Except.ok.inj lowered
      exact ⟨⟨cell.key, comparison, right⟩, rfl, .direct holder⟩
  | none =>
      rw [holder] at lowered
      cases holder' : right.slot? with
      | some cell =>
          rw [holder'] at lowered
          obtain rfl := Except.ok.inj lowered
          exact ⟨⟨cell.key, comparison.flipped, left⟩, rfl, .turned holder'⟩
      | none =>
          rw [holder'] at lowered
          cases lowered

end Tests

/-! ## Writing -/

section Writing

variable {limits : Limits} {draft : Draft} {next : Script}

theorem Premise.eval_congr {premise : Premise} {values values' : Values}
    (same : ∀ cell ∈ premise.slots, values' cell.key = values cell.key) :
    premise.eval values' = premise.eval values := by
  obtain ⟨first, second⟩ := List.forall_mem_append.mp same
  rw [eval, eval, Expr.eval_congr first, Expr.eval_congr second]

theorem evalPremises_congr {premises : List Premise} {values values' : Values}
    (same : ∀ cell ∈ premises.flatMap Premise.slots, values' cell.key = values cell.key) :
    evalPremises values' premises = evalPremises values premises := by
  induction premises with
  | nil => rfl
  | cons premise rest ih =>
      rw [List.flatMap_cons] at same
      obtain ⟨first, others⟩ := List.forall_mem_append.mp same
      rw [evalPremises, evalPremises, Premise.eval_congr first, ih others]

theorem compared_eq_ok {left right : Operand} {comparison : Comparison} {condition : Condition}
    (written : (match (draft.script limits).compare left comparison right with
      | (.ok condition, next) => Except.ok (condition, next)
      | (.error error, _) => .error (ScriptError.lowering error)) = .ok (condition, next)) :
    Lowering.compare left comparison right = .ok condition ∧
      next = script limits { draft with elseAllowed := false } := by
  unfold Script.compare at written
  cases lowered : Lowering.compare left comparison right with
  | error error =>
      rw [lowered] at written
      cases written
  | ok condition =>
      rw [lowered] at written
      obtain ⟨rfl, rfl⟩ := Prod.mk.inj (Except.ok.inj written)
      exact ⟨rfl, rfl⟩

theorem Premise.write_eq_ok {premise : Premise} {condition : Condition}
    (ordinary : ∀ cell ∈ premise.slots, cell.key.Ordinary)
    (written : premise.write (draft.script limits) = .ok (condition, next)) :
    ∃ later changes, ∃ test : Test, next = script limits later ∧ draft.Grows changes later ∧
      condition.text = test.text ∧ test.Usable later.temps ∧
      ∀ {store truth}, premise.eval store.values = some truth →
        ∃ store', store.performAll changes = .ok store' ∧
          Keeps draft.temps later.temps store store' ∧ test.holds store' = truth := by
  obtain ⟨plain, plain'⟩ := List.forall_mem_append.mp ordinary
  obtain ⟨⟨left, _⟩, first, rest⟩ := bind_eq_ok.mp written
  obtain ⟨draft', changes, rfl, grows, testable, computes⟩ := Expr.computes_write plain first
  obtain ⟨⟨right, _⟩, second, rest⟩ := bind_eq_ok.mp rest
  obtain ⟨later, changes', rfl, grows', testable', computes'⟩ := Expr.computes_write plain' second
  obtain ⟨lowered, rfl⟩ := compared_eq_ok rest
  have left_usable := computes.result.mono grows'.temps
  obtain ⟨test, text, tests⟩ := compare_eq_ok lowered (left_usable.readable.citable testable)
    (computes'.result.readable.citable testable')
  refine ⟨{ later with elseAllowed := false }, changes ++ changes', test, rfl,
    (grows.trans grows').withdrawElse, text,
    tests.usable left_usable computes'.result testable testable', ?_⟩
  intro store held result
  obtain ⟨a, left_eq, result⟩ := Option.bind_eq_some_iff.mp result
  obtain ⟨b, right_eq, result⟩ := Option.bind_eq_some_iff.mp result
  have stable {store store' : Store} {number : Int64}
      (keeps : Keeps draft.temps draft'.temps store store')
      (value : premise.right.eval store.values = some number) :
      premise.right.eval store'.values = some number := by
    rw [keeps.eval_eq plain', value]
  obtain ⟨store', performed, keeps, read, read'⟩ :=
    computes.both computes' stable left_eq right_eq
  refine ⟨store', performed, keeps, ?_⟩
  rw [tests.holds_eq, read, read']
  exact Option.some.inj result

/-- Changes behind `temps` temps that lead to cells in which each test has the truth of its premise. -/
structure Decides (premises : List Premise) (changes : List Change) (tests : List Test)
    (temps temps' : Nat) : Prop where
  usable : ∀ test ∈ tests, test.Usable temps'
  run : ∀ {store truths}, evalPremises store.values premises = some truths →
    ∃ later, store.performAll changes = .ok later ∧ Keeps temps temps' store later ∧
      tests.map (Test.holds later) = truths

/-- The changes of premises lead to cells in which each test has the truth of its premise. -/
theorem decides_writePremises {premises : List Premise} {conditions : List Condition}
    (ordinary : ∀ cell ∈ premises.flatMap Premise.slots, cell.key.Ordinary)
    (written : writePremises premises (draft.script limits) = .ok (conditions, next)) :
    ∃ later changes, ∃ tests : List Test, next = script limits later ∧ draft.Grows changes later ∧
      conditions.map Condition.text = tests.map Test.text ∧
      Decides premises changes tests draft.temps later.temps := by
  induction premises generalizing draft conditions next with
  | nil =>
      obtain ⟨rfl, rfl⟩ := Prod.mk.inj (Except.ok.inj written)
      refine ⟨draft, [], [], rfl, .refl draft, rfl, List.forall_mem_nil _, ?_⟩
      intro store truths result
      exact ⟨store, rfl, .refl _ _ _, Option.some.inj result⟩
  | cons premise rest ih =>
      rw [List.flatMap_cons] at ordinary
      obtain ⟨plain, plain'⟩ := List.forall_mem_append.mp ordinary
      obtain ⟨⟨condition, _⟩, first, written⟩ := bind_eq_ok.mp written
      obtain ⟨draft', changes, test, rfl, grows, text, usable, run⟩ := Premise.write_eq_ok plain first
      obtain ⟨⟨others, _⟩, second, written⟩ := bind_eq_ok.mp written
      obtain ⟨later, changes', tests, rfl, grows', texts, decides⟩ := ih plain' second
      obtain ⟨rfl, rfl⟩ := Prod.mk.inj (Except.ok.inj written)
      refine ⟨later, changes ++ changes', test :: tests, rfl, grows.trans grows', ?_, ?_, ?_⟩
      · rw [List.map_cons, List.map_cons, text, texts]
      · exact List.forall_mem_cons.mpr ⟨usable.mono grows'.temps, decides.usable⟩
      intro store truths result
      obtain ⟨truth, first_eq, result⟩ := Option.bind_eq_some_iff.mp result
      obtain ⟨truths', others_eq, result⟩ := Option.bind_eq_some_iff.mp result
      obtain rfl := Option.some.inj result
      obtain ⟨middle, performed, keeps, held⟩ := run first_eq
      -- The other premises read no temps of the first, and their code leaves its operands alone.
      have stable : evalPremises middle.values rest = evalPremises store.values rest :=
        evalPremises_congr fun cell member => keeps.values_eq (plain' cell member)
      obtain ⟨store', performed', keeps', held'⟩ := decides.run (stable.trans others_eq)
      refine ⟨store', ?_, keeps.trans keeps' grows.temps grows'.temps, ?_⟩
      · rw [Store.performAll_append performed, performed']
      · rw [List.map_cons, usable.holds_eq keeps', held, held']

end Writing

/-- A conditional is entered by the truths of its premises. -/
theorem Decides.enters_eq {premises : List Premise} {changes : List Change} {tests : List Test}
    {temps temps' : Nat} (decides : Decides premises changes tests temps temps')
    {conditions : List Condition} (texts : conditions.map Condition.text = tests.map Test.text)
    (all : Bool) (store : Store) :
    store.enters (Script.openingLine all conditions).text all =
      .ok (enters all (tests.map (Test.holds store))) := by
  rw [enters_openingLine texts fun test member => (decides.usable test member).citable]
  cases tests with
  | nil => rfl
  | cons test rest => simp [enters]

end StatScript
