import StatScript.Proofs.Compilation.Draft
import StatScript.Proofs.Machine.Changes

/-!
# Expressions

Results:
1. `calculate_eq_ok`, `Comparison.holds_eq`: the machine computes and compares as numbers do.
2. `Expr.computes_write`: the lines of an expression leave its value in its operand.
-/

namespace StatScript

/-! ## Numbers -/

theorem calculate_eq_ok {op : BasicOp} {left right number : Int64}
    (applied : op.value? left right = some number) :
    Store.calculate op left right = .ok number := by
  cases op with
  | add =>
      rw [← Option.some.inj applied, Int64.ofInt_add, Int64.ofInt_toInt, Int64.ofInt_toInt]
      rfl
  | sub =>
      rw [← Option.some.inj applied, Int64.ofInt_sub, Int64.ofInt_toInt, Int64.ofInt_toInt]
      rfl
  | mul =>
      rw [← Option.some.inj applied, Int64.ofInt_mul, Int64.ofInt_toInt, Int64.ofInt_toInt]
      rfl
  | div =>
      rw [BasicOp.value?] at applied
      split at applied
      · cases applied
      · next nonzero =>
          rw [Store.calculate, if_neg nonzero, ← Option.some.inj applied,
            Int64.ofInt_tdiv left.minValue_le_toInt left.toInt_le right.minValue_le_toInt
              right.toInt_le, Int64.ofInt_toInt, Int64.ofInt_toInt]

theorem Comparison.holds_eq (comparison : Comparison) (left right : Int64) :
    comparison.holds left right = comparison.relates left right := by
  cases comparison <;>
    simp [holds, relates, Int64.toInt_inj, Int64.lt_iff_toInt_lt, Int64.le_iff_toInt_le]

theorem Comparison.relates_flipped (comparison : Comparison) (left right : Int64) :
    comparison.flipped.relates right left = comparison.relates left right := by
  cases comparison <;> simp [flipped, relates, eq_comm]

/-! ## Values -/

theorem Expr.eval_congr {expr : Expr} {values values' : Values}
    (same : ∀ cell ∈ expr.slots, values' cell.key = values cell.key) :
    expr.eval values' = expr.eval values := by
  induction expr with
  | slot cell => exact congrArg some (same cell List.mem_cons_self)
  | long value => rfl
  | binary op left right ihl ihr =>
      obtain ⟨first, second⟩ := List.forall_mem_append.mp same
      rw [eval, eval, ihl first, ihr second]

theorem SlotKey.Ordinary.within {key : SlotKey} (ordinary : key.Ordinary) (temps : Nat) :
    key.Within temps := by
  rintro number rfl
  exact absurd ordinary.lasting nofun

/-- Code does not change the values of ordinary slots. -/
theorem Keeps.values_eq {temps temps' : Nat} {store later : Store} {key : SlotKey}
    (keeps : Keeps temps temps' store later) (ordinary : key.Ordinary) :
    later.values key = store.values key :=
  keeps.get_eq ordinary.toSound (ordinary.within temps)

theorem Keeps.eval_eq {temps temps' : Nat} {store later : Store} {expr : Expr}
    (keeps : Keeps temps temps' store later) (ordinary : ∀ cell ∈ expr.slots, cell.key.Ordinary) :
    expr.eval later.values = expr.eval store.values :=
  Expr.eval_congr fun cell member => keeps.values_eq (ordinary cell member)

/-! ## Writing -/

open Draft

theorem Lowering.basic_eq_ok {op : BasicOp} {left right : Operand} {emit : Emit Operand}
    (lowered : Lowering.basic op left right = .ok emit) : emit = Emit.basic op left right := by
  obtain ⟨_, -, lowered⟩ := bind_eq_ok.mp lowered
  obtain ⟨_, -, lowered⟩ := bind_eq_ok.mp lowered
  obtain ⟨_, -, lowered⟩ := bind_eq_ok.mp lowered
  exact (Except.ok.inj lowered).symm

/-- The lines of an expression leave its value in its operand. -/
theorem Expr.computes_write {limits : Limits} {expr : Expr}
    (ordinary : ∀ cell ∈ expr.slots, cell.key.Ordinary) {draft : Draft} {operand : Operand}
    {next : Script} (written : expr.write (draft.script limits) = .ok (operand, next)) :
    ∃ later changes, next = script limits later ∧ draft.Grows changes later ∧ operand.Testable ∧
      Computes ⟨changes, operand, later.temps⟩ draft.temps
        fun store number => expr.eval store.values = some number := by
  induction expr generalizing draft operand next with
  | slot cell =>
      obtain ⟨rfl, rfl⟩ := Prod.mk.inj (Except.ok.inj written)
      have plain := ordinary cell List.mem_cons_self
      have usable := Operand.usable_slot plain.toSound (plain.within draft.temps)
      refine ⟨draft, [], rfl, .refl draft, ?_, computes_operand usable Option.some.inj⟩
      rintro _ ⟨⟩
      exact plain.toTestable
  | long value =>
      obtain ⟨rfl, rfl⟩ := Prod.mk.inj (Except.ok.inj written)
      have usable := Operand.usable_long draft.temps value
      exact ⟨draft, [], rfl, .refl draft, nofun, computes_operand usable Option.some.inj⟩
  | binary op left right ihl ihr =>
      obtain ⟨plain, plain'⟩ := List.forall_mem_append.mp ordinary
      obtain ⟨⟨first, _⟩, written', rest⟩ := bind_eq_ok.mp written
      obtain ⟨draft', changes, rfl, grows, -, computes⟩ := ihl plain written'
      obtain ⟨⟨second, _⟩, written'', rest⟩ := bind_eq_ok.mp rest
      obtain ⟨draft'', changes', rfl, grows', -, computes'⟩ := ihr plain' written''
      obtain ⟨emit, lowered, rfl, rfl⟩ := lowered_eq_ok rest
      obtain rfl := Lowering.basic_eq_ok lowered
      -- The left operand was usable before the code of the right one, and stays so.
      have combines := computes_basic op (computes.result.mono grows'.temps) computes'.result
      refine ⟨_, changes ++ changes' ++ _, rfl,
        (grows.trans grows').trans (grows_append combines.grows _), ?_, ?_, combines.result, ?_⟩
      · rintro _ ⟨⟩
        exact SlotKey.testable_temp _
      · exact Nat.le_trans (grows.trans grows').temps combines.grows
      intro store number value
      obtain ⟨a, first_eq, value⟩ := Option.bind_eq_some_iff.mp value
      obtain ⟨b, second_eq, value⟩ := Option.bind_eq_some_iff.mp value
      -- The code of the left operand changes temps only, so the right one has the value that it had.
      have stable {store later : Store} {number : Int64}
          (keeps : Keeps draft.temps draft'.temps store later)
          (value : right.eval store.values = some number) :
          right.eval later.values = some number := by
        rw [keeps.eval_eq plain', value]
      obtain ⟨middle, performed, keeps, left_eq, right_eq⟩ :=
        computes.both computes' stable first_eq second_eq
      have calculated : Store.calculate op (first.read middle) (second.read middle) = .ok number := by
        rw [left_eq, right_eq, calculate_eq_ok value]
      obtain ⟨later, performed', keeps', read⟩ := combines.run middle number calculated
      refine ⟨later, ?_, ?_, read⟩
      · rw [Store.performAll_append performed, performed']
      · exact keeps.trans keeps' (grows.trans grows').temps combines.grows

end StatScript
