import StatScript.Proofs.Compilation.Conditional

/-!
# Trees of operations

An expression is built bottom-up: each call combines two operands that are there already, which are leaves
or results of earlier calls. The order of the calls is free as long as operands come first, and a result may
be read more than once, so several trees grow side by side in one listing.

Results:
1. `Combination.computes`: the code of one call leaves its number in a temp of its own.
2. `Builds.invariant`: all results keep their numbers while further calls are lowered and run.
3. `builds_values`: running the emitted lines leaves the value of every tree in its operand and changes
   nothing but the temps of the calls.
-/

namespace StatScript

/-! ## Trees -/

/-- A call that combines two operands. Division goes toward zero, so floor division is the same
operation; a reflected call is asked of its right operand, which it is given first. -/
inductive Combination where
  | basic (op : BasicOp)
  | floorDiv
  | reflected (op : BasicOp)
deriving DecidableEq, Repr

namespace Combination

/-- The lowering of a call. -/
def lowering : Combination → Operand → Operand → Except LoweringError (Emit Operand)
  | basic op, left, right => Lowering.basic op left right
  | floorDiv, left, right => Lowering.basic .div left right
  | reflected op, this, other => Lowering.reflected op this other

/-- The result of a call, if it has one. -/
def value? : Combination → Int64 → Int64 → Option Int64
  | basic op, left, right => op.value? left right
  | floorDiv, left, right => BasicOp.div.value? left right
  | reflected op, this, other => op.value? other this

end Combination

/-- A tree of calls. Its leaves are operands that were there before. -/
inductive Tree where
  | leaf (operand : Operand)
  | node (call : Combination) (first second : Tree)
deriving DecidableEq, Repr

/-- The value of a tree, by what the cells hold before any of its lines is run. There is none if a
division by zero is met. -/
def Tree.eval (store : Store) : Tree → Option Int64
  | leaf operand => some (operand.read store)
  | node call first second => do
      let left ← first.eval store
      let right ← second.eval store
      call.value? left right

/-- The operands that a call may read: leaves that are usable behind the first `temps` temps, and the
results of earlier calls. -/
inductive Stock (temps : Nat) (built : List (Tree × Operand)) : Tree → Operand → Prop
  | leaf {operand : Operand} : operand.Usable temps → Stock temps built (.leaf operand) operand
  | result {tree : Tree} {operand : Operand} :
      (tree, operand) ∈ built → Stock temps built tree operand

/-- `Builds context listing built later written`: calls lowered from a context at the end of a listing
have built trees, each with the operand that was returned for it, the last one first. -/
inductive Builds (context : Context) (listing : Listing) :
    List (Tree × Operand) → Context → Listing → Prop
  | start : Builds context listing [] context listing
  | call {built : List (Tree × Operand)} {before after : Context} {lines further : Listing}
      {first second : Tree} {left right operand : Operand} (call : Combination) :
      Builds context listing built before lines →
      Stock context.temps built first left → Stock context.temps built second right →
      before.lower lines (call.lowering left right) = .ok (operand, after, further) →
      Builds context listing ((.node call first second, operand) :: built) after further

/-! ## One call -/

theorem Computes.imp {code : Code Operand} {temps : Nat} {gives gives' : Store → Int64 → Prop}
    (computes : Computes code temps gives)
    (given : ∀ {store number}, gives' store number → gives store number) :
    Computes code temps gives' :=
  ⟨computes.grows, computes.result, fun store number held => computes.run store number (given held)⟩

theorem BasicOp.value?_comm {op : BasicOp} (commutative : op.isCommutative) (left right : Int64) :
    op.value? left right = op.value? right left := by
  cases op with
  | add => simp only [value?, Int.add_comm]
  | mul => simp only [value?, Int.mul_comm]
  | sub => cases commutative
  | div => cases commutative

/-- The code of a call leaves its number in a temp of its own. -/
theorem Combination.computes {call : Combination} {left right : Operand} {emit : Emit Operand}
    (lowered : call.lowering left right = .ok emit) {temps : Nat} (usable : left.Usable temps)
    (usable' : right.Usable temps) :
    Computes (emit temps) temps
      fun store number => call.value? (left.read store) (right.read store) = some number := by
  cases call with
  | basic op =>
      obtain rfl := Lowering.basic_eq_ok lowered
      exact (computes_basic op usable usable').imp calculate_eq_ok
  | floorDiv =>
      obtain rfl := Lowering.basic_eq_ok lowered
      refine (computes_basic .div usable usable').imp fun value => ?_
      exact @calculate_eq_ok .div _ _ _ value
  | reflected op =>
      simp only [lowering, Lowering.reflected] at lowered
      split at lowered
      · next commutative =>
          -- The operands are not exchanged, which makes no difference to the number.
          obtain rfl := Lowering.basic_eq_ok lowered
          refine (computes_basic op usable usable').imp fun value => calculate_eq_ok ?_
          rw [BasicOp.value?_comm commutative]
          exact value
      · obtain rfl := Lowering.basic_eq_ok lowered
        exact (computes_basic op usable' usable).imp calculate_eq_ok

/-! ## All calls -/

theorem Context.lower_eq_ok {α : Type} {context later : Context} {listing written : Listing}
    {lowering : Except LoweringError (Emit α)} {result : α}
    (lowered : context.lower listing lowering = .ok (result, later, written)) :
    ∃ emit, lowering = .ok emit ∧ result = (emit context.temps).result ∧
      later = { context with temps := (emit context.temps).temps } ∧
      written = listing.extend (Draft.changeLines listing.indent (emit context.temps).changes) := by
  cases lowering with
  | error error => cases lowered
  | ok emit =>
      obtain ⟨rfl, rest⟩ := Prod.mk.inj (Except.ok.inj lowered)
      obtain ⟨rfl, rfl⟩ := Prod.mk.inj rest
      exact ⟨emit, rfl, rfl, rfl, rfl⟩

/-- What holds behind calls: they have appended changes, their results may be read, and running the changes
leaves the value of each tree in its operand. -/
structure Built (temps : Nat) (listing : Listing) (built : List (Tree × Operand)) (temps' : Nat)
    (written : Listing) (changes : List Change) : Prop where
  grows : temps ≤ temps'
  written : written = listing.extend (Draft.changeLines listing.indent changes)
  usable : ∀ pair ∈ built, pair.2.Usable temps'
  run : ∀ store : Store, (∀ pair ∈ built, pair.1.eval store ≠ none) →
    ∃ later, store.performAll changes = .ok later ∧ Keeps temps temps' store later ∧
      ∀ pair ∈ built, pair.1.eval store = some (pair.2.read later)

namespace Built

variable {temps temps' : Nat} {listing written : Listing} {built : List (Tree × Operand)}
  {changes : List Change} {tree : Tree} {operand : Operand}

theorem stock_usable (invariant : Built temps listing built temps' written changes)
    (stock : Stock temps built tree operand) : operand.Usable temps' := by
  cases stock with
  | leaf usable => exact usable.mono invariant.grows
  | result member => exact invariant.usable _ member

/-- A leaf keeps its number, and a result has the value of its tree. -/
theorem stock_read {store later : Store} (keeps : Keeps temps temps' store later)
    (values : ∀ pair ∈ built, pair.1.eval store = some (pair.2.read later))
    (stock : Stock temps built tree operand) : tree.eval store = some (operand.read later) := by
  cases stock with
  | leaf usable => rw [Tree.eval, usable.read_eq keeps]
  | result member => exact values _ member

end Built

/-- All results keep their numbers while further calls are lowered and run. -/
theorem Builds.invariant {context later : Context} {listing written : Listing}
    {built : List (Tree × Operand)} (builds : Builds context listing built later written) :
    ∃ changes, Built context.temps listing built later.temps written changes := by
  induction builds with
  | start =>
      refine ⟨[], Nat.le_refl _, ?_, nofun, fun store _ => ⟨store, rfl, .refl _ _ _, nofun⟩⟩
      simp [Listing.extend, Draft.changeLines]
  | @call built before after lines further first second left right operand call _ stock stock'
      lowered ih =>
      obtain ⟨changes, invariant⟩ := ih
      obtain ⟨emit, lowering, rfl, rfl, rfl⟩ := Context.lower_eq_ok lowered
      have computes := Combination.computes lowering (invariant.stock_usable stock)
        (invariant.stock_usable stock')
      refine ⟨changes ++ (emit before.temps).changes,
        Nat.le_trans invariant.grows computes.grows, ?_, ?_, ?_⟩
      · rw [invariant.written]
        simp [Listing.extend, Draft.changeLines]
      · exact List.forall_mem_cons.mpr
          ⟨computes.result, fun pair member => (invariant.usable pair member).mono computes.grows⟩
      intro store defined
      obtain ⟨here, earlier⟩ := List.forall_mem_cons.mp defined
      obtain ⟨middle, performed, keeps, values⟩ := invariant.run store earlier
      have left_eq := Built.stock_read keeps values stock
      have right_eq := Built.stock_read keeps values stock'
      obtain ⟨number, value⟩ := Option.ne_none_iff_exists'.mp here
      have calculated : call.value? (left.read middle) (right.read middle) = some number := by
        rw [Tree.eval, left_eq, right_eq] at value
        exact value
      obtain ⟨later, performed', keeps', read⟩ := computes.run middle number calculated
      refine ⟨later, ?_, keeps.trans keeps' invariant.grows computes.grows,
        List.forall_mem_cons.mpr ⟨?_, fun pair member => ?_⟩⟩
      · rw [Store.performAll_append performed, performed']
      · rw [value, read]
      -- The new call changes its own temp only, so the earlier results are as they were.
      · rw [values pair member, (invariant.usable pair member).read_eq keeps']

/-- Running the emitted lines leaves the value of every tree in its operand and changes nothing but the
temps handed out by the calls. -/
theorem builds_values {context later : Context} {listing written : Listing}
    {built : List (Tree × Operand)} (builds : Builds context listing built later written) :
    ∃ emitted, written = listing.extend emitted ∧
      ∀ store : Store, (∀ pair ∈ built, pair.1.eval store ≠ none) →
        ∃ store', store.run emitted = .ok store' ∧ Keeps context.temps later.temps store store' ∧
          ∀ tree operand, Stock context.temps built tree operand →
            ∃ value, tree.eval store = some value ∧ store'.eval operand = .ok value := by
  obtain ⟨changes, invariant⟩ := builds.invariant
  refine ⟨_, invariant.written, fun store defined => ?_⟩
  obtain ⟨store', performed, keeps, values⟩ := invariant.run store defined
  refine ⟨store', ?_, keeps, fun tree operand stock => ?_⟩
  · rw [Store.run, Machine.run_changeLines performed]
    rfl
  · refine ⟨operand.read store', Built.stock_read keeps values stock, ?_⟩
    exact Operand.resolve_right (invariant.stock_usable stock).readable store'

/-- `(old - (x + 1)) / (x + 1)`, where `old` is the second temp of earlier code and the difference is asked
of its right side. -/
def spread : Tree :=
  .node .floorDiv (.node (.reflected .sub) sum (.leaf (.computed ⟨2, .any⟩ [.sign]))) sum
where
  sum : Tree := .node (.basic .add) (.leaf (.slot (.player "x"))) (.leaf (.ofLong 1))

/-- The sum in both sides is lowered once. -/
theorem builds_values_spread :
    ∃ built later written emitted store' operand,
      Builds { temps := 3 } { indent := 1 } built later written ∧ Stock 3 built spread operand ∧
        written = Listing.extend { indent := 1 } emitted ∧ emitted.length = 6 ∧
        Store.run ⟨[("stat x", 4), ("stat _t2", 100)]⟩ emitted = .ok store' ∧
        store'.eval operand = .ok 19 ∧ store'.get "stat x" = 4 := by
  have sound : SlotKey.Sound (.player "x") := (by decide : SlotKey.Ordinary (.player "x")).toSound
  have within : SlotKey.Within 3 (.player "x") := fun _ => nofun
  have usable : (Operand.slot (.player "x")).Usable 3 := Operand.usable_slot sound within
  have usable' : (Operand.computed ⟨2, .any⟩ [.sign]).Usable 3 :=
    Operand.usable_computed (by decide) [.sign]
  have none : Builds { temps := 3 } { indent := 1 } [] { temps := 3 } { indent := 1 } := .start
  have sum := none.call (.basic .add) (.leaf usable) (.leaf (Operand.usable_long 3 1)) rfl
  have difference := sum.call (.reflected .sub) (.result List.mem_cons_self)
    (.leaf usable') rfl
  have quotient := difference.call .floorDiv (.result List.mem_cons_self)
    (.result (List.mem_cons_of_mem _ List.mem_cons_self)) rfl
  obtain ⟨emitted, written, run⟩ := builds_values quotient
  obtain ⟨store', ran, keeps, values⟩ := run ⟨[("stat x", 4), ("stat _t2", 100)]⟩ (by decide)
  obtain ⟨value, evaluated, read⟩ := values _ _ (.result List.mem_cons_self)
  obtain rfl : value = 19 := Option.some.inj (evaluated.symm.trans (by decide))
  refine ⟨_, _, _, emitted, store', _, quotient, .result List.mem_cons_self, written, ?_, ran, read,
    keeps.get_eq sound within⟩
  have lines := congrArg (fun listing => listing.body.length) written
  exact lines.symm

end StatScript
