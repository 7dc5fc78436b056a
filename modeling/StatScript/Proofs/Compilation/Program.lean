import StatScript.Proofs.Compilation.Conditional

/-!
# Compiled programs

Main statement: `writeProgram_run`. Running the finished program leaves in every ordinary slot the value
that the program gives it, whatever the limits are and whatever the cells hold before.

Each sentence appends lines that do to the cells what the sentence does to the values; they follow one
another outside conditionals, and fitting keeps their runs.
-/

namespace StatScript

open Draft Fitting

section Sentences

variable {limits : Limits} {draft : Draft} {next : Script}

/-- Behind the line that closes a first body stands the second one, if there is one. -/
theorem ends_writeAlternative {alternative : Option (List Statement)} {lines : List Line}
    {indent : Nat}
    (ordinary : ∀ cell ∈ (alternative.getD []).flatMap Statement.slots, cell.key.Ordinary)
    (body : draft.body = lines ++ [⟨"\x7d", .close, false, indent⟩]) (branch : draft.branch = none)
    (written : writeAlternative alternative (draft.script limits) = .ok next) :
    ∃ later tail, next = script limits later ∧ later.body = lines ++ tail ∧ later.branch = none ∧
      Ends tail fun values => evalStatements values (alternative.getD []) := by
  cases alternative with
  | none =>
      obtain rfl := Except.ok.inj written
      exact ⟨draft, _, rfl, body, branch, ends_close indent⟩
  | some statements =>
      obtain ⟨_, opened, written⟩ := bind_eq_ok.mp written
      obtain rfl := openElse_eq_ok body (mapError_eq_ok.mp opened)
      obtain ⟨_, inside, closed⟩ := bind_eq_ok.mp written
      obtain ⟨draft', changes, rfl, grows, performs⟩ := performs_writeStatements ordinary inside
      obtain ⟨branch', branch_eq, rfl⟩ := close_eq_ok (mapError_eq_ok.mp closed)
      obtain rfl : branch' = .second := Option.some.inj (branch_eq.symm.trans grows.branch)
      refine ⟨_, _, rfl, ?_, rfl, ends_else performs indent (draft.indent + 1) (draft'.indent - 1)⟩
      show draft'.body ++ _ = _
      rw [grows.body]
      simp

/-- The lines of a sentence do to the cells what the sentence does to the values. -/
theorem Sentence.realizes_write {sentence : Sentence}
    (ordinary : ∀ cell ∈ sentence.slots, cell.key.Ordinary) (branch : draft.branch = none)
    (written : sentence.write (draft.script limits) = .ok next) :
    ∃ later lines, next = script limits later ∧ later.body = draft.body ++ lines ∧
      later.branch = none ∧ Realizes lines fun values => sentence.eval values := by
  cases sentence with
  | plain statement =>
      obtain ⟨later, changes, rfl, grows, performs⟩ := Statement.performs_write ordinary written
      exact ⟨later, _, rfl, grows.body, grows.branch.trans branch, realizes_changes performs _⟩
  | conditional all premises body alternative =>
      obtain ⟨plain, other⟩ := List.forall_mem_append.mp ordinary
      obtain ⟨plain, plain'⟩ := List.forall_mem_append.mp plain
      obtain ⟨⟨conditions, _⟩, premised, written⟩ := bind_eq_ok.mp written
      obtain ⟨draft', changes, tests, rfl, grows, texts, decides⟩ :=
        decides_writePremises plain premised
      obtain ⟨_, opened, written⟩ := bind_eq_ok.mp written
      obtain rfl := openIf_eq_ok (mapError_eq_ok.mp opened)
      obtain ⟨_, inside, written⟩ := bind_eq_ok.mp written
      obtain ⟨draft'', changes', rfl, grows', performs⟩ := performs_writeStatements plain' inside
      obtain ⟨_, closed, written⟩ := bind_eq_ok.mp written
      obtain ⟨branch', branch_eq, rfl⟩ := close_eq_ok (mapError_eq_ok.mp closed)
      obtain rfl : branch' = .first := Option.some.inj (branch_eq.symm.trans grows'.branch)
      -- The line that closed the first body may be rewritten by a second one, so it is taken from there.
      obtain ⟨later, tail, rfl, body_eq, branch', ends⟩ :=
        ends_writeAlternative other rfl rfl written
      refine ⟨later, _, rfl, ?_, branch',
        realizes_conditional plain decides texts performs ends all draft.indent (draft'.indent + 1)⟩
      rw [body_eq, grows'.body]
      show draft'.body ++ _ ++ _ ++ _ = _
      rw [grows.body, grows.indent]
      simp

/-- The lines of a program do to the cells what the program does to the values. -/
theorem realizes_writeProgram {program : List Sentence}
    (ordinary : ∀ cell ∈ program.flatMap Sentence.slots, cell.key.Ordinary)
    (branch : draft.branch = none) (written : writeProgram program (draft.script limits) = .ok next) :
    ∃ later lines, next = script limits later ∧ later.body = draft.body ++ lines ∧
      later.branch = none ∧ Realizes lines fun values => evalProgram values program := by
  induction program generalizing draft with
  | nil =>
      obtain rfl := Except.ok.inj written
      exact ⟨draft, [], rfl, (List.append_nil _).symm, branch, realizes_nil⟩
  | cons sentence rest ih =>
      rw [List.flatMap_cons] at ordinary
      obtain ⟨plain, plain'⟩ := List.forall_mem_append.mp ordinary
      obtain ⟨_, first, written⟩ := bind_eq_ok.mp written
      obtain ⟨draft', lines, rfl, body, branch', realizes⟩ :=
        Sentence.realizes_write plain branch first
      obtain ⟨later, lines', rfl, body', branch'', realizes'⟩ := ih plain' branch' written
      refine ⟨later, lines ++ lines', rfl, ?_, branch'', realizes.append realizes'⟩
      rw [body', body, List.append_assoc]

end Sentences

theorem finish_script {limits : Limits} {draft : Draft} (branch : draft.branch = none) :
    (draft.script limits).finish = fitProgram limits draft.body := by
  unfold Script.finish
  rw [show (draft.script limits).branch = none from branch, lines_script]
  rfl

/-- Running the finished program leaves in every ordinary slot the value that the program gives it. Slots
may have been declared before it is written. -/
theorem writeProgram_run (limits : Limits) {program : List Sentence} {script : Script}
    (ordinary : ∀ cell ∈ program.flatMap Sentence.slots, cell.key.Ordinary)
    {registry : Registry}
    (written : writeProgram program { Script.new limits with context := { registry } } = .ok script)
    (store : Store) {values : Values} (evaluated : evalProgram store.values program = some values) :
    ∃ outcome later, script.finish = .ok outcome ∧ store.run outcome.lines = .ok later ∧
      ∀ key : SlotKey, key.Ordinary → later.get key.left = values key := by
  rw [← script_empty] at written
  obtain ⟨draft, lines, rfl, body, branch, realizes⟩ := realizes_writeProgram ordinary rfl written
  obtain rfl : draft.body = lines := body
  have fittable := realizes.fittable
  obtain ⟨outcome, fitted, same⟩ :=
    fitProgram_run limits fittable.headless fittable.nested fittable.flagged
  obtain ⟨later, ran, holds⟩ := realizes.run (fun _ _ => rfl) evaluated
  refine ⟨outcome, later, ?_, ?_, holds⟩
  · rw [finish_script branch, fitted]
  · rw [same, Store.run, ran]
    rfl

/-- A program with temps in both operands of a division, a comparison that is turned around, a second
body and a conditional without premises. -/
def duel : List Sentence :=
  [.plain (.assign (.player "score")
      (.binary .div (.binary .sub (.slot (.player "kills")) (.long 7))
        (.binary .add (.slot (.global "round")) (.long 2)))),
    .plain (.update (.team "points" "red") .sub (.binary .mul (.slot (.player "score")) (.long 4))),
    .conditional false
      [⟨.long 10, .less, .slot (.team "points" "red")⟩,
        ⟨.binary .add (.slot (.global "round")) (.long 1), .equal, .slot (.player "kills")⟩]
      [.assign (.global "winner") (.long 1)] (some [.assign (.global "winner") (.long 2)]),
    .conditional true [] [.update (.player "score") .mul (.slot (.global "winner"))] none]

theorem writeProgram_run_duel :
    ∃ script outcome later, writeProgram duel (Script.new ⟨1, 1⟩) = .ok script ∧
      script.finish = .ok outcome ∧ Store.run ⟨[("stat kills", 3)]⟩ outcome.lines = .ok later ∧
      later.get "stat score" = -4 ∧ later.get "teamstat points red" = 8 ∧
      later.get "globalstat winner" = 2 := by
  obtain ⟨script, written⟩ : ∃ script, writeProgram duel (Script.new ⟨1, 1⟩) = .ok script :=
    ⟨_, rfl⟩
  obtain ⟨values, evaluated⟩ :
      ∃ values, evalProgram (Store.values ⟨[("stat kills", 3)]⟩) duel = some values := ⟨_, rfl⟩
  have numbers : (evalProgram (Store.values ⟨[("stat kills", 3)]⟩) duel).map (fun values =>
      (values (.player "score"), values (.team "points" "red"), values (.global "winner"))) =
        some (-4, 8, 2) := by decide
  rw [evaluated] at numbers
  obtain ⟨score, rest⟩ := Prod.mk.inj (Option.some.inj numbers)
  obtain ⟨points, winner⟩ := Prod.mk.inj rest
  obtain ⟨outcome, later, finished, ran, held⟩ :=
    writeProgram_run ⟨1, 1⟩ (by decide) written ⟨[("stat kills", 3)]⟩ evaluated
  refine ⟨script, outcome, later, written, finished, ran, ?_, ?_, ?_⟩
  · exact (held (.player "score") (by decide)).trans score
  · exact (held (.team "points" "red") (by decide)).trans points
  · exact (held (.global "winner") (by decide)).trans winner

end StatScript
