import StatScript.Proofs.Compilation.Premise
import StatScript.Proofs.Fitting.Execution
import StatScript.Proofs.Script.Control

/-!
# Entering a conditional

Comparisons are joined into the text of one line, and the machine cuts that text apart again. What it finds
there has the truth of what was joined, also where a number stood on the left and was moved.

Results:
1. `exists_tests`: each accepted query becomes the text of a test with the same truth.
2. `openIf_enters`: a conditional is entered if all of its queries hold, or if any does.
-/

namespace StatScript

/-- A comparison of two operands. -/
structure Query where
  left : Operand
  comparison : Comparison
  right : Operand
deriving DecidableEq

namespace Query

/-- Both sides can be cited. -/
structure Citable (query : Query) : Prop where
  left : query.left.Citable
  right : query.right.Citable

/-- Whether the numbers of the operands compare in the given way. -/
def holds (store : Store) (query : Query) : Bool :=
  query.comparison.relates (query.left.read store) (query.right.read store)

/-- The queries become conditions, one by one. -/
def Accepted (queries : List Query) (conditions : List Condition) : Prop :=
  List.Forall₂ (fun query condition =>
    Lowering.compare query.left query.comparison query.right = .ok condition) queries conditions

/-- Whether the queries let a conditional be entered. -/
def entered (all : Bool) (queries : List Query) (store : Store) : Bool :=
  if all then queries.all (holds store) else queries.any (holds store)

/-- Each accepted query becomes the text of a test with the same truth. -/
theorem exists_tests {queries : List Query} {conditions : List Condition}
    (accepted : Accepted queries conditions) (citable : ∀ query ∈ queries, query.Citable) :
    ∃ tests : List Test, conditions.map Condition.text = tests.map Test.text ∧
      (∀ test ∈ tests, test.Citable) ∧
      ∀ store, tests.map (Test.holds store) = queries.map (holds store) := by
  induction accepted with
  | nil => exact ⟨[], rfl, List.forall_mem_nil _, fun _ => rfl⟩
  | @cons query condition queries conditions lowered accepted ih =>
      obtain ⟨first, others⟩ := List.forall_mem_cons.mp citable
      obtain ⟨test, text, tests⟩ := compare_eq_ok lowered first.left first.right
      obtain ⟨rest, texts, rest_citable, same⟩ := ih others
      refine ⟨test :: rest, ?_, ?_, fun store => ?_⟩
      · rw [List.map_cons, List.map_cons, text, texts]
      · exact List.forall_mem_cons.mpr ⟨tests.citable first.left first.right, rest_citable⟩
      · rw [List.map_cons, List.map_cons, same store, tests.holds_eq]
        rfl

theorem enters_openingLine_queries {queries : List Query} {conditions : List Condition}
    (nonempty : queries ≠ []) (citable : ∀ query ∈ queries, query.Citable)
    (accepted : Accepted queries conditions) (all : Bool) (store : Store) :
    store.enters (Script.openingLine all conditions).text all = .ok (entered all queries store) := by
  obtain ⟨tests, texts, tests_citable, same⟩ := exists_tests accepted citable
  have nonempty' : tests.isEmpty = false := by
    cases tests with
    | nil => exact absurd (List.map_eq_nil_iff.mp (same store).symm) nonempty
    | cons test rest => rfl
  have all_eq : tests.all (Test.holds store) = queries.all (holds store) := by
    rw [← Function.id_comp (Test.holds store), ← List.all_map, same, List.all_map, Function.id_comp]
  have any_eq : tests.any (Test.holds store) = queries.any (holds store) := by
    rw [← Function.id_comp (Test.holds store), ← List.any_map, same, List.any_map, Function.id_comp]
  rw [enters_openingLine texts tests_citable, nonempty', Bool.false_or, entered, all_eq, any_eq]

end Query

/-- A conditional is entered if all of its queries hold between the numbers of their operands, or if any does. -/
theorem openIf_enters {script : Script} {queries : List Query} {conditions : List Condition}
    (closed : script.branch = none) (nonempty : queries ≠ [])
    (citable : ∀ query ∈ queries, query.Citable) (accepted : Query.Accepted queries conditions)
    (all : Bool) :
    ∃ next line, script.openIf all conditions = .ok next ∧
      next.listing.lines = script.listing.lines ++ [line] ∧
      ∀ store : Store,
        (∀ query ∈ queries, store.eval query.left = .ok (query.left.read store) ∧
          store.eval query.right = .ok (query.right.read store)) ∧
        ∀ skipping rest, Machine.run { store, skipping } (line :: rest) =
          Machine.run { store, skipping := !Query.entered all queries store } rest := by
  let line : Line := { Script.openingLine all conditions with indent := script.listing.indent }
  refine ⟨_, line, by rw [Script.openIf, closed], ?_,
    fun store => ⟨fun query member => ?_, fun skipping rest => ?_⟩⟩
  · show (script.setListing (script.listing.push (Script.openingLine all conditions)).deepen).listing.lines = _
    simp [Listing.deepen, Listing.push, Listing.pushAll, Listing.extend, Listing.lines, line]
  · exact ⟨(citable query member).left.legible.resolve_right store,
      (citable query member).right.legible.resolve_right store⟩
  · have entered : store.enters line.text all = .ok (Query.entered all queries store) :=
      Query.enters_openingLine_queries nonempty citable accepted all store
    exact Machine.run_cons (Machine.step_opens rfl entered) rest

/-- A number on the left of a stat that is called as a mode, and a stat beside a temp. -/
def raid : List Query :=
  [⟨.ofLong (-3), .less, .slot (.team "set" "_t1")⟩,
    ⟨.slot (.player "_t1"), .equal, .computed ⟨1, .long⟩ [.abs]⟩]

theorem openIf_enters_raid :
    ∃ next line, (Script.new {}).openIf true
        [⟨"teamstat set _t1 > -3"⟩, ⟨"stat _t1 == %stat.player/_t1%"⟩] = .ok next ∧
      next.listing.lines = [line] ∧
      Machine.run { store := ⟨[("teamstat set _t1", -2)]⟩ } [line] =
        .ok { store := ⟨[("teamstat set _t1", -2)]⟩, skipping := false } ∧
      Machine.run { store := ⟨[("teamstat set _t1", -3)]⟩ } [line] =
        .ok { store := ⟨[("teamstat set _t1", -3)]⟩, skipping := true } := by
  have citable : ∀ query ∈ raid, query.Citable :=
    List.forall_mem_cons.mpr ⟨⟨trivial, (by decide : SlotKey.Citable (.team "set" "_t1"))⟩,
      List.forall_mem_singleton.mpr ⟨(by decide : SlotKey.Citable (.player "_t1")), trivial⟩⟩
  have accepted : Query.Accepted raid [⟨"teamstat set _t1 > -3"⟩, ⟨"stat _t1 == %stat.player/_t1%"⟩] :=
    .cons rfl (.cons rfl .nil)
  have closed : (Script.new {}).branch = none := rfl
  obtain ⟨next, line, opened, lines, entered⟩ :=
    openIf_enters closed (List.cons_ne_nil _ _) citable accepted true
  refine ⟨next, line, opened, lines, ?_, ?_⟩
  · exact (entered ⟨[("teamstat set _t1", -2)]⟩).2 false []
  · exact (entered ⟨[("teamstat set _t1", -3)]⟩).2 false []

end StatScript
