import StatScript.Proofs.Compilation.Premise
import StatScript.Proofs.Compilation.Statement
import StatScript.Proofs.Fitting.Execution

/-!
# Conditionals

Results:
1. `realizes_changes`: lines of changes run as the changes do.
2. `realizes_conditional`: a conditional runs one of its bodies, by the truths of its premises.
-/

namespace StatScript

open Draft Fitting

/-! ## Runs -/

namespace Machine

theorem run_append_ok {machine next : Machine} {first : List Line}
    (ran : machine.run first = .ok next) (second : List Line) :
    machine.run (first ++ second) = next.run second := by
  rw [run_append, ran]
  rfl

theorem run_changeLines {store later : Store} {changes : List Change}
    (performed : store.performAll changes = .ok later) (indent : Nat) :
    run { store } (changeLines indent changes) = .ok { store := later } := by
  induction changes generalizing store with
  | nil =>
      cases performed
      rfl
  | cons change rest ih =>
      rw [Store.performAll] at performed
      cases stepped : store.perform change.text with
      | error fault =>
          rw [stepped] at performed
          cases performed
      | ok next =>
          rw [stepped] at performed
          have line : step { store } { change.line with indent } = .ok { store := next } := by
            simp only [step, Change.line, stepped]
            rfl
          exact (run_cons line _).trans (ih performed)

/-- Changes in a body that is not entered are skipped. -/
theorem run_skipped (store : Store) (indent : Nat) (changes : List Change) :
    run { store, skipping := true } (changeLines indent changes) =
      .ok { store, skipping := true } := by
  induction changes with
  | nil => rfl
  | cons change rest ih => exact (run_cons rfl _).trans ih

end Machine

/-! ## Texts and tags -/

theorem flagged_change (change : Change) (indent : Nat) : Flagged { change.line with indent } := by
  have text : change.text = change.target.key.leftWord ++ (" " ++ change.target.key.qualifiedName) ++
      (" " ++ change.mode.word ++ " " ++ change.value.right) := by
    simp only [Change.text, Slot.left, SlotKey.left, String.append_assoc]
  show unflaggedAmount? change.text = none
  rw [text]
  have leads : change.target.key.leftWord = "stat" ∨ change.target.key.leftWord = "globalstat" ∨
      change.target.key.leftWord = "teamstat" := by
    cases change.target.key <;> simp [SlotKey.leftWord]
  refine unflaggedAmount?_append _ _ _ ?_
  rcases leads with lead | lead | lead
  · exact ⟨'s', by rw [lead]; decide⟩
  · exact ⟨'g', by rw [lead]; decide⟩
  · exact ⟨'t', by rw [lead]; decide⟩

theorem flagged_openingLine (all : Bool) (conditions : List Condition) (indent : Nat) :
    Flagged { Script.openingLine all conditions with indent } := by
  refine unflaggedAmount?_append _ _ _ ⟨'i', ?_⟩
  cases all <;> decide

/-- Lines that can be fitted: in a position, without headers and with all last words. -/
structure Fittable (position : Position) (lines : List Line) : Prop where
  headless : Headless lines
  nested : Nested position lines
  flagged : ∀ line ∈ lines, Flagged line

theorem Fittable.cons {position position' : Position} {line : Line} {rest : List Line}
    (header : line.tag ≠ .header) (stepped : position.step line.tag = some position')
    (flagged : Flagged line) (fittable : Fittable position' rest) :
    Fittable position (line :: rest) where
  headless := headless_cons.mpr ⟨header, fittable.headless⟩
  nested := nested_cons.mpr ⟨position', stepped, fittable.nested⟩
  flagged := List.forall_mem_cons.mpr ⟨flagged, fittable.flagged⟩

theorem Fittable.append {position : Position} {first second : List Line}
    (fittable : Fittable position first) (fittable' : Fittable .outside second) :
    Fittable position (first ++ second) where
  headless := List.forall_mem_append.mpr ⟨fittable.headless, fittable'.headless⟩
  nested := by
    rw [Nested, walk_append, fittable.nested]
    exact fittable'.nested
  flagged := List.forall_mem_append.mpr ⟨fittable.flagged, fittable'.flagged⟩

theorem Fittable.changes {position : Position} {rest : List Line} (fittable : Fittable position rest)
    (indent : Nat) (changes : List Change) :
    Fittable position (changeLines indent changes ++ rest) := by
  induction changes with
  | nil => exact fittable
  | cons change others ih => exact ih.cons nofun (step_plain rfl) (flagged_change change indent)

/-! ## Bodies -/

/-- Lines that stand by themselves and do to the cells what `effect` does to the values. -/
structure Realizes (lines : List Line) (effect : Values → Option Values) : Prop where
  fittable : Fittable .outside lines
  run : ∀ {values values' store}, Holds values store → effect values = some values' →
    ∃ later, Machine.run { store } lines = .ok { store := later } ∧ Holds values' later

theorem realizes_nil : Realizes [] some where
  fittable := ⟨List.forall_mem_nil _, rfl, List.forall_mem_nil _⟩
  run := by
    rintro values _ store holds ⟨⟩
    exact ⟨store, rfl, holds⟩

theorem Realizes.append {first second : List Line} {effect effect' : Values → Option Values}
    (realizes : Realizes first effect) (realizes' : Realizes second effect') :
    Realizes (first ++ second) fun values => (effect values).bind effect' where
  fittable := realizes.fittable.append realizes'.fittable
  run := by
    intro values values'' store holds result
    obtain ⟨values', middle, last⟩ := Option.bind_eq_some_iff.mp result
    obtain ⟨next, ran, holds'⟩ := realizes.run holds middle
    obtain ⟨later, ran', holds''⟩ := realizes'.run holds' last
    exact ⟨later, by rw [Machine.run_append_ok ran, ran'], holds''⟩

/-- Lines of changes run as the changes do. -/
theorem realizes_changes {changes : List Change} {effect : Values → Option Values}
    (performs : Performs changes effect) (indent : Nat) :
    Realizes (changeLines indent changes) effect where
  fittable := by
    rw [← List.append_nil (changeLines indent changes)]
    exact realizes_nil.fittable.changes indent changes
  run := by
    intro values values' store holds result
    obtain ⟨later, performed, holds'⟩ := performs values values' store holds result
    exact ⟨later, Machine.run_changeLines performed indent, holds'⟩

/-- Lines behind the first body of a conditional: they do nothing if it was entered, and otherwise what
`effect` does. -/
structure Ends (lines : List Line) (effect : Values → Option Values) : Prop where
  fittable : Fittable .firstBody lines
  entered : ∀ store, Machine.run { store } lines = .ok { store }
  skipped : ∀ {values values' store}, Holds values store → effect values = some values' →
    ∃ later, Machine.run { store, skipping := true } lines = .ok { store := later } ∧
      Holds values' later

theorem flagged_close (tag : Tag) (indent : Nat) : Flagged ⟨"\x7d", tag, false, indent⟩ :=
  unflaggedAmount?_append "\x7d" "" "" ⟨'\x7d', by decide⟩

theorem ends_close (indent : Nat) : Ends [⟨"\x7d", .close, false, indent⟩] some where
  fittable := realizes_nil.fittable.cons nofun rfl (flagged_close .close indent)
  entered := fun store => rfl
  skipped := by
    rintro values _ store holds ⟨⟩
    exact ⟨store, rfl, holds⟩

theorem ends_else {changes : List Change} {effect : Values → Option Values}
    (performs : Performs changes effect) (indent inner indent' : Nat) :
    Ends (⟨"\x7d" ++ " else \x7b", .elseOpen, false, indent⟩ ::
      (changeLines inner changes ++ [⟨"\x7d", .elseClose, false, indent'⟩])) effect where
  fittable := by
    have last : Fittable .secondBody [⟨"\x7d", .elseClose, false, indent'⟩] :=
      realizes_nil.fittable.cons nofun rfl (flagged_close .elseClose indent')
    refine (last.changes inner changes).cons nofun rfl ?_
    exact unflaggedAmount?_append "\x7d" " else " "\x7b" ⟨'\x7d', by decide⟩
  entered := by
    intro store
    show Machine.run { store, skipping := true } (changeLines inner changes ++ _) = .ok { store }
    rw [Machine.run_append_ok (Machine.run_skipped store inner changes)]
    rfl
  skipped := by
    intro values values' store holds result
    obtain ⟨later, performed, holds'⟩ := performs values values' store holds result
    refine ⟨later, ?_, holds'⟩
    show Machine.run { store } (changeLines inner changes ++ _) = .ok { store := later }
    rw [Machine.run_append_ok (Machine.run_changeLines performed inner)]
    rfl

/-- A conditional runs one of its bodies, by the truths of its premises. -/
theorem realizes_conditional {premises : List Premise} {changes body : List Change}
    {tests : List Test} {temps temps' : Nat} {conditions : List Condition} {tail : List Line}
    {effect effect' : Values → Option Values}
    (ordinary : ∀ cell ∈ premises.flatMap Premise.slots, cell.key.Ordinary)
    (decides : Decides premises changes tests temps temps')
    (texts : conditions.map Condition.text = tests.map Test.text) (performs : Performs body effect)
    (ends : Ends tail effect') (all : Bool) (indent inner : Nat) :
    Realizes (changeLines indent changes ++ ({ Script.openingLine all conditions with indent } ::
      (changeLines inner body ++ tail))) fun values =>
        (evalPremises values premises).bind fun truths =>
          if enters all truths then effect values else effect' values where
  fittable := by
    refine Fittable.changes ?_ indent changes
    refine (ends.fittable.changes inner body).cons ?_ ?_ (flagged_openingLine all conditions indent)
    · cases all <;> exact nofun
    · cases all <;> rfl
  run := by
    intro values values' store holds result
    obtain ⟨truths, truths_eq, result⟩ := Option.bind_eq_some_iff.mp result
    have stable : evalPremises store.values premises = evalPremises values premises :=
      evalPremises_congr fun cell member => holds cell.key (ordinary cell member)
    obtain ⟨next, performed, keeps, held⟩ := decides.run (stable.trans truths_eq)
    have holds' := holds.keeps keeps
    have opened : Machine.step { store := next }
        { Script.openingLine all conditions with indent } =
          .ok { store := next, skipping := !enters all truths } := by
      rw [← held]
      exact Machine.step_opens rfl (decides.enters_eq texts all next)
    rw [Machine.run_append_ok (Machine.run_changeLines performed indent), Machine.run_cons opened]
    -- Either the first body runs and the lines behind it do nothing, or it is skipped and they run.
    cases entered : enters all truths with
    | true =>
        rw [entered, if_pos rfl] at result
        obtain ⟨later, performed', holds''⟩ := performs values values' next holds' result
        refine ⟨later, ?_, holds''⟩
        show Machine.run { store := next } (changeLines inner body ++ tail) = _
        rw [Machine.run_append_ok (Machine.run_changeLines performed' inner), ends.entered]
    | false =>
        rw [entered] at result
        obtain ⟨later, ran, holds''⟩ := ends.skipped holds' result
        refine ⟨later, ?_, holds''⟩
        show Machine.run { store := next, skipping := true } (changeLines inner body ++ tail) = _
        rw [Machine.run_append_ok (Machine.run_skipped next inner body), ran]

end StatScript
