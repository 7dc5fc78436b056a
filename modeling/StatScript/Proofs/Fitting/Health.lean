import StatScript.Fitting.Health
import StatScript.Proofs.Fitting.Nesting
import StatScript.Proofs.Text.Cut

/-!
# Lines that set the maximal health

Results:
1. `mem_fuseHealth`: a fused program has lines of the program that need no last word, and lines that
   were given theirs.
2. `Fused.flagged`, `fuseHealth_eq_self`: so there is nothing left to fuse.
3. `filterMap_fuseHealth`: what is read off lines that say nothing about health stays, in order.
4. `walk_fuseHealth`: no position changes, if the lines that start or end something have texts that
   say nothing about health.
-/

namespace StatScript.Fitting

/-- A line of the program that needs no last word, or one that was given its last word. -/
def Fused (lines : List Line) (line : Line) : Prop :=
  (line ∈ lines ∧ unflaggedAmount? line.text = none) ∨
    ∃ source amount heal, unflaggedAmount? source.text = some amount ∧
      line = flagged source amount heal

theorem Fused.subset {first second : List Line} {line : Line} (fused : Fused first line)
    (subset : first ⊆ second) : Fused second line :=
  fused.imp_left fun ⟨member, plain⟩ => ⟨subset member, plain⟩

/-- All lines of a fused program say whether they heal. -/
theorem mem_fuseHealth {lines : List Line} {line : Line} (member : line ∈ fuseHealth lines) :
    Fused lines line := by
  fun_induction fuseHealth lines with
  | case1 => cases member
  | case2 first plain =>
      obtain rfl := List.mem_singleton.mp member
      exact .inl ⟨List.mem_cons_self, plain⟩
  | case3 first amount sets =>
      exact .inr ⟨first, amount, false, sets, List.mem_singleton.mp member⟩
  | case4 first next rest plain ih =>
      rcases List.mem_cons.mp member with rfl | member
      · exact .inl ⟨List.mem_cons_self, plain⟩
      · exact (ih member).subset (List.subset_cons_self _ _)
  | case5 first next rest amount sets heal ih =>
      rcases List.mem_cons.mp member with flagged | member
      · exact .inr ⟨first, amount, true, sets, flagged⟩
      · exact (ih member).subset
          (List.subset_cons_of_subset first (List.subset_cons_self next rest))
  | case6 first next rest amount sets heal ih =>
      rcases List.mem_cons.mp member with flagged | member
      · exact .inr ⟨first, amount, false, sets, flagged⟩
      · exact (ih member).subset (List.subset_cons_self _ _)

theorem unflaggedAmount?_eq_some {text amount : String} (sets : unflaggedAmount? text = some amount) :
    Text.words text = [maxHealth, amount] := by
  unfold unflaggedAmount? at sets
  split at sets
  · next word amount' words =>
      split at sets
      · next same => rw [words, same, Option.some.inj sets]
      · cases sets
  · cases sets

theorem words_flagged {source : Line} {amount : String} (heal : Bool)
    (sets : unflaggedAmount? source.text = some amount) :
    Text.words (flagged source amount heal).text =
      [maxHealth, amount, if heal then "true" else "false"] := by
  have solid : Text.Solid amount := by
    have listed : amount ∈ Text.words source.text := by
      rw [unflaggedAmount?_eq_some sets]
      exact List.mem_cons_of_mem _ List.mem_cons_self
    exact Text.solid_of_mem_words listed
  have solidWord : Text.Solid (if heal then "true" else "false") := by cases heal <;> decide
  have last : (if heal then " true" else " false") = " " ++ if heal then "true" else "false" := by
    cases heal <;> decide
  simp only [flagged]
  rw [last, ← String.append_assoc, Text.words_append, Text.words_append,
    Text.words_solid (by decide), Text.words_solid solid, Text.words_solid solidWord]
  rfl

theorem unflaggedAmount?_flagged {source : Line} {amount : String} (heal : Bool)
    (sets : unflaggedAmount? source.text = some amount) :
    unflaggedAmount? (flagged source amount heal).text = none := by
  rw [unflaggedAmount?, words_flagged heal sets]

/-- A text whose first word begins with another letter does not set the maximal health. -/
theorem unflaggedAmount?_eq_none {text : String} {c : Char} {word : List Char} {further : List String}
    (words : Text.words text = String.ofList (c :: word) :: further) (other : c ≠ 'm') :
    unflaggedAmount? text = none := by
  refine Option.eq_none_iff_forall_ne_some.mpr fun amount sets => ?_
  rw [unflaggedAmount?_eq_some sets] at words
  have same : maxHealth.toList = c :: word := by
    rw [(List.cons.inj words).1, String.toList_ofList]
  exact other (List.cons.inj same).1.symm

theorem unflaggedAmount?_append (lead inner tail : String)
    (head : ∃ c, lead.toList.head? = some c ∧ Text.isBlank c = false ∧ c ≠ 'm') :
    unflaggedAmount? (lead ++ inner ++ tail) = none := by
  obtain ⟨c, first, solid, other⟩ := head
  obtain ⟨rest, lead_eq⟩ := List.head?_eq_some_iff.mp first
  have text : (lead ++ inner ++ tail).toList = c :: (rest ++ inner.toList ++ tail.toList) := by
    rw [String.toList_append, String.toList_append, lead_eq, List.cons_append, List.cons_append]
  obtain ⟨word, further, words⟩ := Text.words_head text solid
  exact unflaggedAmount?_eq_none words other

/-- The line has its last word, or needs none. -/
def Flagged (line : Line) : Prop :=
  unflaggedAmount? line.text = none

theorem Fused.flagged {lines : List Line} {line : Line} (fused : Fused lines line) :
    Flagged line := by
  rcases fused with ⟨-, none⟩ | ⟨source, amount, heal, sets, rfl⟩
  · exact none
  · exact unflaggedAmount?_flagged heal sets

theorem fuseHealth_eq_self {lines : List Line}
    (flagged : ∀ line ∈ lines, Flagged line) : fuseHealth lines = lines := by
  fun_induction fuseHealth lines with
  | case1 => rfl
  | case2 => rfl
  | case3 line amount sets =>
      exact absurd ((flagged line List.mem_cons_self).symm.trans sets) nofun
  | case4 line next rest _ ih => rw [ih (List.forall_mem_cons.mp flagged).2]
  | case5 line next rest amount sets _ _ | case6 line next rest amount sets _ _ =>
      exact absurd ((flagged line List.mem_cons_self).symm.trans sets) nofun

/-! ## Positions -/

/-- The text says nothing about health. -/
def Inert (text : String) : Prop :=
  unflaggedAmount? text = none ∧ Text.trim text ≠ fullHeal

instance (text : String) : Decidable (Inert text) :=
  inferInstanceAs (Decidable (_ ∧ _))

/-- What is read off lines that say nothing about health, and off no line that was given its last word,
stays and keeps its order. -/
theorem filterMap_fuseHealth {α : Type} {read : Line → Option α}
    (inert : ∀ line value, read line = some value → Inert line.text)
    (unread : ∀ line amount heal, read (flagged line amount heal) = none) (lines : List Line) :
    (fuseHealth lines).filterMap read = lines.filterMap read := by
  have sets_unread {line : Line} {amount : String} (sets : unflaggedAmount? line.text = some amount) :
      read line = none := by
    rw [Option.eq_none_iff_forall_ne_some]
    intro value found
    exact Option.some_ne_none _ (sets.symm.trans (inert line value found).1)
  have heals_unread {line : Line} (heal : heals line) : read line = none := by
    rw [Option.eq_none_iff_forall_ne_some]
    intro value found
    exact (inert line value found).2 (of_decide_eq_true heal)
  fun_induction fuseHealth lines with
  | case1 => rfl
  | case2 => rfl
  | case3 line amount sets =>
      rw [List.filterMap_cons_none (unread _ _ _), List.filterMap_cons_none (sets_unread sets)]
  | case4 line next rest _ ih => rw [List.filterMap_cons, ih, ← List.filterMap_cons]
  | case5 line next rest amount sets heal ih =>
      rw [List.filterMap_cons_none (unread _ _ _), List.filterMap_cons_none (sets_unread sets),
        List.filterMap_cons_none (heals_unread heal), ih]
  | case6 line next rest amount sets _ ih =>
      rw [List.filterMap_cons_none (unread _ _ _), List.filterMap_cons_none (sets_unread sets), ih]

/-- The lines that start or end something say nothing about health. -/
def Steady (lines : List Line) : Prop :=
  ∀ line ∈ lines, line.tag.isPlain ∨ Inert line.text

/-- A text that begins with another letter than the words about health says nothing about it. -/
theorem inert_append {lead tail : String} (inner : String) {c : Char}
    (head : lead.toList.head? = some c) (other : c ≠ 'm' ∧ c ≠ 'f') (edged : Text.Edged lead)
    (last : Text.Edged tail) : Inert (lead ++ inner ++ tail) := by
  have solid : Text.isBlank c = false := by
    obtain ⟨⟨d, first, solid⟩, -⟩ := edged
    rwa [Option.some.inj (head.symm.trans first)]
  refine ⟨unflaggedAmount?_append lead inner tail ⟨c, head, solid, other.1⟩, ?_⟩
  rw [Text.trim, Text.trim_eq_self (edged.append inner last), String.ofList_toList]
  intro same
  have start : (lead ++ inner ++ tail).toList.head? = some c := by
    rw [String.toList_append, String.toList_append, List.append_assoc, List.head?_append, head]
    rfl
  rw [same] at start
  exact other.2 (Option.some.inj start).symm

/-- What is fused is plain, so the walk over the tags passes it by. -/
theorem walk_fuseHealth {lines : List Line} (steady : Steady lines) (position : Position) :
    position.walk (fuseHealth lines) = position.walk lines := by
  fun_induction fuseHealth lines generalizing position with
  | case1 => rfl
  | case2 => rfl
  | case3 line amount sets => rfl
  | case4 line next rest _ ih =>
      obtain ⟨-, others⟩ := List.forall_mem_cons.mp steady
      rw [Position.walk, Position.walk]
      exact congrArg _ (funext fun position => ih others position)
  | case5 line next rest amount sets heal ih =>
      obtain ⟨first, others⟩ := List.forall_mem_cons.mp steady
      obtain ⟨second, others⟩ := List.forall_mem_cons.mp others
      -- Neither the line that sets the health nor the one that heals is inert.
      have sets_plain : line.tag.isPlain :=
        first.resolve_right fun inert => Option.some_ne_none _ (sets.symm.trans inert.1)
      have heals_plain : next.tag.isPlain :=
        second.resolve_right fun inert => inert.2 (of_decide_eq_true heal)
      simp only [Position.walk, flagged, step_plain sets_plain, step_plain heals_plain,
        Option.bind_some, ih others]
  | case6 line next rest amount sets _ ih =>
      obtain ⟨-, others⟩ := List.forall_mem_cons.mp steady
      rw [Position.walk, Position.walk]
      exact congrArg _ (funext fun position => ih others position)

end StatScript.Fitting
