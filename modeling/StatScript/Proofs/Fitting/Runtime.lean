import StatScript.Proofs.Fitting.Expansion

/-!
# Runs with calls

The target runs a container line by line. It enters a body of a conditional by the truth of its header, a
call runs another container and goes on behind the call, and an exit ends the container that it stands in.
What the target does beyond this is left open. A run is limited in the depth of its calls and has no result
if the limit is reached.

Results:
1. `runLines_plain`, `runLines_append`: runs of lines that neither start nor end a body.
2. `call_mono`, `call_unique`: a run with a result has the same one under every higher limit, so it has one
   result at most.
-/

namespace StatScript

open Fitting

/-- A target: the truth of the header of a conditional, the effect of a line, and the effect of a call
of a container that the program does not have. A header without conditions is true. -/
structure Runtime (State : Type) where
  truth : String → State → Bool
  effect : Line → State → State
  foreign : String → State → State
  truth_filler : ∀ state, truth fillerLine.text state = true

/-- What a run has done: the changes, in order, and the state behind them. -/
structure Passage (State : Type) where
  changes : List Line := []
  state : State
deriving DecidableEq

/-- The same behind earlier changes. -/
def Passage.behind {State : Type} (changes : List Line) (passage : Passage State) : Passage State :=
  { passage with changes := changes ++ passage.changes }

theorem Passage.behind_nothing {State : Type} (passage : Passage State) :
    behind passage.changes { state := passage.state } = passage := by
  rw [behind, List.append_nil]

/-- What a line does that is not skipped: it ends the container, or the run goes on behind it. -/
inductive Deed (State : Type) where
  | ended (state : State)
  | passed (passage : Passage State)

/-- What calls lead to, by their text, if they end. -/
abbrev Handler (State : Type) : Type :=
  String → State → Option (Passage State)

/-- Whether a call with a given text runs the container. -/
def Fitting.Segment.answers (text : String) (segment : Segment) : Bool :=
  segment.name.any fun name => (callLine name).text = text

/-- The lines of the container that a call runs. -/
def callee? (program : List Segment) (text : String) : Option (List Line) :=
  (program.find? (Segment.answers text)).map Segment.body

namespace Runtime

variable {State : Type} (runtime : Runtime State)

/-- Whether lines are skipped behind a line that starts or ends a body. -/
def skips (skipping : Bool) (line : Line) (state : State) : Bool :=
  match line.tag with
  | .openAll | .openAny => !runtime.truth line.text state
  | .elseOpen => !skipping
  | .close | .elseClose => false
  | _ => skipping

/-- What a line does that is not skipped. -/
def act (call : Handler State) (line : Line) (state : State) : Option (Deed State) :=
  match line.tag with
  | .exit => some (.ended state)
  | .call => (call line.text state).map .passed
  | .change _ => some (.passed ⟨[line.bare], runtime.effect line.bare state⟩)
  | _ => some (.passed ⟨[], runtime.effect line.bare state⟩)

/-- Runs lines up to their end or an exit. -/
def runLines (call : Handler State) (skipping : Bool) (state : State) :
    List Line → Option (Passage State)
  | [] => some { state }
  | line :: rest =>
      if skipping || !line.tag.isPlain then
        runLines call (runtime.skips skipping line state) state rest
      else
        match runtime.act call line state with
        | none => none
        | some (.ended last) => some { state := last }
        | some (.passed passage) =>
            (runLines call false passage.state rest).map (Passage.behind passage.changes)

/-- Runs what a call names, with calls up to a given depth. -/
def call (program : List Segment) : Nat → Handler State
  | 0, _, _ => none
  | depth + 1, text, state =>
      match callee? program text with
      | none => some { state := runtime.foreign text state }
      | some body => runtime.runLines (call program depth) false state body

/-- Runs a container, with calls up to a given depth. -/
def run (program : List Segment) (depth : Nat) (name : String) (state : State) :
    Option (Passage State) :=
  runtime.call program depth (callLine name).text state

/-! ## Lines -/

variable {runtime} {f g : Handler State} {skipping : Bool} {state : State} {line : Line}
  {rest rest' : List Line} {result : Passage State}

theorem skips_plain (plain : line.tag.isPlain) (skipping : Bool) (state : State) :
    runtime.skips skipping line state = skipping := by
  unfold skips
  cases tag : line.tag <;> simp_all [Tag.isPlain, Tag.opens, Tag.closesBody]

theorem runLines_turn (turns : ¬line.tag.isPlain) :
    runtime.runLines f skipping state (line :: rest) =
      runtime.runLines f (runtime.skips skipping line state) state rest := by
  rw [runLines, if_pos (by simp [turns])]

theorem runLines_skipped (plain : line.tag.isPlain) :
    runtime.runLines f true state (line :: rest) = runtime.runLines f true state rest := by
  rw [runLines, if_pos (by simp), skips_plain plain]

/-- A line that is not skipped ends the run, or the run goes on behind it. -/
theorem runLines_act (plain : line.tag.isPlain) :
    runtime.runLines f false state (line :: rest) = some result ↔
      (∃ last, runtime.act f line state = some (.ended last) ∧ result = { state := last }) ∨
        ∃ passage later, runtime.act f line state = some (.passed passage) ∧
          runtime.runLines f false passage.state rest = some later ∧
          result = later.behind passage.changes := by
  rw [runLines, if_neg (by simp [plain])]
  cases runtime.act f line state with
  | none => simp
  | some deed =>
      cases deed with
      | ended last => simp [eq_comm]
      | passed passage =>
          constructor
          · intro ran
            obtain ⟨later, behind, rfl⟩ := Option.map_eq_some_iff.mp ran
            exact .inr ⟨passage, later, rfl, behind, rfl⟩
          · rintro (⟨_, ⟨⟩, _⟩ | ⟨_, later, ⟨⟩, ran, rfl⟩)
            exact Option.map_eq_some_iff.mpr ⟨later, ran, rfl⟩

/-- The second handler answers a call of the line as the first does. -/
def Agrees (f g : Handler State) (line : Line) : Prop :=
  line.tag = .call → ∀ state result, f line.text state = some result → g line.text state = some result

theorem act_mono (agrees : Agrees f g line) {deed : Deed State}
    (acts : runtime.act f line state = some deed) : runtime.act g line state = some deed := by
  unfold act at acts ⊢
  split at acts
  · exact acts
  · next tag =>
      obtain ⟨result, called, rfl⟩ := Option.map_eq_some_iff.mp acts
      exact Option.map_eq_some_iff.mpr ⟨result, agrees tag state result called, rfl⟩
  · exact acts
  · exact acts

/-- A plain line does the same in front of lines that run alike. -/
theorem runLines_plain (plain : line.tag.isPlain) (agrees : Agrees f g line)
    (later : ∀ {state result}, runtime.runLines f skipping state rest = some result →
      runtime.runLines g skipping state rest' = some result)
    (ran : runtime.runLines f skipping state (line :: rest) = some result) :
    runtime.runLines g skipping state (line :: rest') = some result := by
  cases skipping with
  | true =>
      rw [runLines_skipped plain] at ran ⊢
      exact later ran
  | false =>
      rw [runLines_act plain] at ran ⊢
      rcases ran with ⟨last, acts, rfl⟩ | ⟨passage, tail, acts, ran, rfl⟩
      · exact .inl ⟨last, act_mono agrees acts, rfl⟩
      · exact .inr ⟨passage, tail, act_mono agrees acts, later ran, rfl⟩

theorem runLines_mono (agrees : ∀ line ∈ rest, Agrees f g line)
    (ran : runtime.runLines f skipping state rest = some result) :
    runtime.runLines g skipping state rest = some result := by
  induction rest generalizing skipping state result with
  | nil => exact ran
  | cons line rest ih =>
      obtain ⟨first, others⟩ := List.forall_mem_cons.mp agrees
      by_cases plain : line.tag.isPlain
      · exact runLines_plain plain first (ih others) ran
      · rw [runLines_turn plain] at ran ⊢
        exact ih others ran

/-- Runs do not depend on depths. -/
theorem runLines_bare (lines : List Line) :
    runtime.runLines f skipping state (lines.map Line.bare) =
      runtime.runLines f skipping state lines := by
  induction lines generalizing skipping state with
  | nil => rfl
  | cons line rest ih =>
      have acts : runtime.act f line.bare state = runtime.act f line state := rfl
      have skips : runtime.skips skipping line.bare state = runtime.skips skipping line state := rfl
      have tag : line.bare.tag = line.tag := rfl
      simp only [List.map_cons, runLines, acts, skips, tag, ih]

/-- Plain lines in a body that is not entered are skipped. -/
theorem runLines_skipped_append {first : List Line} (plain : ∀ line ∈ first, line.tag.isPlain)
    (second : List Line) :
    runtime.runLines f true state (first ++ second) = runtime.runLines f true state second := by
  induction first with
  | nil => rfl
  | cons line first ih =>
      obtain ⟨head, others⟩ := List.forall_mem_cons.mp plain
      rw [List.cons_append, runLines_skipped head, ih others]

/-- Only an exit ends a container. -/
theorem act_ne_ended (exit : line.tag ≠ .exit) (last : State) :
    runtime.act f line state ≠ some (.ended last) := by
  intro acts
  unfold act at acts
  split at acts
  · next tag => exact exit tag
  · obtain ⟨result, -, passed⟩ := Option.map_eq_some_iff.mp acts
    cases passed
  · cases acts
  · cases acts

/-- Plain lines without an exit are run, and then what stands behind them. -/
theorem runLines_append {first second : List Line}
    (plain : ∀ line ∈ first, line.tag.isPlain ∧ line.tag ≠ .exit)
    (ran : runtime.runLines f false state (first ++ second) = some result) :
    ∃ passage later, runtime.runLines f false state first = some passage ∧
      runtime.runLines f false passage.state second = some later ∧
      result = later.behind passage.changes := by
  induction first generalizing state result with
  | nil => exact ⟨{ state }, result, rfl, ran, rfl⟩
  | cons line first ih =>
      obtain ⟨⟨head, exit⟩, others⟩ := List.forall_mem_cons.mp plain
      rw [List.cons_append, runLines_act head] at ran
      rcases ran with ⟨last, acts, -⟩ | ⟨passage, tail, acts, ran, rfl⟩
      · exact absurd acts (act_ne_ended exit last)
      · obtain ⟨passage', later, inner, outer, rfl⟩ := ih others ran
        refine ⟨passage'.behind passage.changes, later, ?_, outer, ?_⟩
        · exact (runLines_act head).mpr (.inr ⟨passage, passage', acts, inner, rfl⟩)
        · simp only [Passage.behind, List.append_assoc]

/-! ## Depths -/

variable {program : List Segment}

/-- A called container runs one level deeper. -/
theorem call_succ {depth : Nat} {text : String} {body : List Line}
    (found : callee? program text = some body) (state : State) :
    runtime.call program (depth + 1) text state =
      runtime.runLines (runtime.call program depth) false state body := by
  rw [call, found]

theorem call_mono {depth depth' : Nat} (le : depth ≤ depth') {text : String}
    (ran : runtime.call program depth text state = some result) :
    runtime.call program depth' text state = some result := by
  induction depth generalizing depth' text state result with
  | zero => cases ran
  | succ depth ih =>
      obtain ⟨more, rfl⟩ := Nat.exists_eq_add_of_le le
      rw [Nat.succ_add] at le ⊢
      cases found : callee? program text with
      | none =>
          rw [call, found] at ran ⊢
          exact ran
      | some body =>
          rw [call_succ found] at ran ⊢
          exact runLines_mono (fun _ _ _ _ _ called => ih (Nat.le_add_right _ _) called) ran

/-- Runs under different limits do not disagree. -/
theorem call_unique {depth depth' : Nat} {text : String} {result' : Passage State}
    (ran : runtime.call program depth text state = some result)
    (ran' : runtime.call program depth' text state = some result') : result = result' := by
  have first := call_mono (Nat.le_max_left depth depth') ran
  have second := call_mono (Nat.le_max_right depth depth') ran'
  exact Option.some.inj (first.symm.trans second)

end Runtime

end StatScript
