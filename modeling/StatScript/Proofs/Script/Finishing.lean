import StatScript.Proofs.Fitting.Counting
import StatScript.Proofs.Script.Shape

/-!
# Finishing a script

A script refuses to finish while it remembers an open body. Fitting knows nothing of that: it reads
the structure off the tags, behind the fusion of health lines and with the containers behind one
another. Both come to the same answer, whatever was written and refused before.

Results:
1. `Shaped.nested_iff`: the lines of a script are well nested iff no conditional is open.
2. `Shaped.fitProgram_ok_iff`: so they can be fitted iff no conditional is open.
3. `Shaped.fitProgram?_iff`: the same where placeholders are counted with 64 bits, unless the count overflows.
4. `finish_ok_iff`: this holds behind every history, and for the script itself.
-/

namespace StatScript.Script

open Fitting (Position Steady Nested Countable fitProgram fitProgram?)

/-! ## Containers behind one another -/

section Entries

variable {entry : Option String × Container} {position : Position}

theorem steady_containerLines (stands : entry.2.listing.Stands position) :
    Steady (containerLines entry) := by
  obtain ⟨name, container⟩ := entry
  have lines : Steady container.listing.lines :=
    List.forall_mem_append.mpr ⟨fun line member => .inl (stands.preamble line member), stands.steady⟩
  cases name with
  | none => exact lines
  | some name => exact List.forall_mem_cons.mpr ⟨.inr (inert_headerLine name), lines⟩

/-- A container begins outside, with its header or without. -/
theorem walk_containerLines (stands : entry.2.listing.Stands position) :
    Position.outside.walk (containerLines entry) = some position := by
  obtain ⟨name, container⟩ := entry
  have lines : Position.outside.walk container.listing.lines = some position := by
    simp [Listing.lines, Fitting.walk_plain stands.preamble, stands.body]
  cases name with
  | none => exact lines
  | some name => exact lines

theorem walk_flatMap_containerLines {entries : List (Option String × Container)}
    (outside : ∀ entry ∈ entries, entry.2.listing.Stands .outside) :
    Position.outside.walk (entries.flatMap containerLines) = some .outside := by
  induction entries with
  | nil => rfl
  | cons entry rest ih =>
      obtain ⟨first, others⟩ := List.forall_mem_cons.mp outside
      simp [walk_containerLines first, ih others]

end Entries

/-! ## Scripts -/

section Lines

variable {script : Script}

/-- Only the first container has no name. -/
theorem Shaped.named_of_mem_tail (shaped : script.Shaped) {first entry : Option String × Container}
    {rest : List (Option String × Container)} (split : script.containers = first :: rest)
    (member : entry ∈ rest) : ∃ name, entry.1 = some name := by
  have names := shaped.names
  have unnamed := shaped.first
  rw [split, List.map_cons] at names unnamed
  refine Option.ne_none_iff_exists'.mp fun again => (List.nodup_cons.mp names).1 ?_
  rw [Option.some.inj unnamed, ← again]
  exact List.mem_map_of_mem member

theorem Shaped.named_behind (shaped : script.Shaped) {entry next : Option String × Container}
    {before after : List (Option String × Container)}
    (split : script.containers = before ++ entry :: next :: after) :
    ∃ name, next.1 = some name := by
  cases before with
  | nil => exact shaped.named_of_mem_tail split List.mem_cons_self
  | cons first before => exact shaped.named_of_mem_tail split (by simp)

/-- Behind an open body comes the end or a header, and neither may stand there. -/
theorem Shaped.not_nested (shaped : script.Shaped) {branch : Branch}
    (opened : script.branch = some branch) : ¬ Nested .outside script.lines := by
  have inside := branch.position_ne_outside
  obtain ⟨before, after, split⟩ := List.append_of_mem (mem_active shaped.current)
  have outside : ∀ entry ∈ before, entry.2.listing.Stands .outside := by
    intro entry member
    have other : entry.1 ≠ script.current := by
      have names := shaped.names
      rw [split, List.map_append, List.nodup_append] at names
      exact names.2.2 _ (List.mem_map_of_mem member) _ List.mem_cons_self
    have stands := shaped.stands entry (split ▸ List.mem_append_left _ member)
    rwa [place, if_neg other] at stands
  have current := shaped.listing
  rw [opened] at current
  have here : Position.outside.walk (containerLines (script.current, script.active)) =
      some (Branch.position (some branch)) := walk_containerLines current
  have walked : Position.outside.walk script.lines =
      (Branch.position (some branch)).walk (after.flatMap containerLines) := by
    simp [lines, split, walk_flatMap_containerLines outside, here]
  rw [Nested, walked]
  cases after with
  | nil => exact fun ended => inside (Option.some.inj ended)
  | cons next after =>
      obtain ⟨name, named⟩ := shaped.named_behind split
      obtain ⟨_, container⟩ := next
      obtain rfl := named
      intro ended
      cases branch <;> cases ended

/-- The lines of a script are well nested iff no conditional is open. -/
theorem Shaped.nested_iff (shaped : script.Shaped) :
    Nested .outside script.lines ↔ script.branch = none := by
  cases branch : script.branch with
  | none => exact iff_of_true (walk_flatMap_containerLines (shaped.outside branch)) rfl
  | some _ => exact iff_of_false (shaped.not_nested branch) nofun

theorem Shaped.steady_lines (shaped : script.Shaped) : Steady script.lines := by
  intro line member
  obtain ⟨entry, listed, member⟩ := List.mem_flatMap.mp member
  exact steady_containerLines (shaped.stands entry listed) line member

/-- The lines of a script can be fitted, into whatever room, iff no conditional is open. -/
theorem Shaped.fitProgram_ok_iff (shaped : script.Shaped) (limits : Limits) :
    (∃ outcome, fitProgram limits script.lines = .ok outcome) ↔ script.branch = none := by
  rw [← shaped.nested_iff, Nested, ← Fitting.walk_fuseHealth shaped.steady_lines]
  simp only [Fitting.fitProgram_eq_ok, exists_and_left, exists_eq, and_true]
  rfl

/-- Lines are fitted, into whatever room, iff no conditional is open, unless the count overflows, and they are
refused iff one is open. -/
theorem Shaped.fitProgram?_iff (shaped : script.Shaped) (limits : Limits) :
    (Countable limits script.lines →
        ((∃ outcome, fitProgram? limits script.lines = some (.ok outcome)) ↔ script.branch = none)) ∧
      ((∃ error, fitProgram? limits script.lines = some (.error error)) ↔ script.branch ≠ none) := by
  have fitted := shaped.fitProgram_ok_iff limits
  constructor
  · intro countable
    simpa [Fitting.fitProgram?_eq_some_iff.mpr countable] using fitted
  · simp only [Fitting.fitProgram?_eq_error_iff, ne_eq, ← fitted]
    cases fitProgram limits script.lines with
    | error error => simp
    | ok outcome => simp

/-- A closed script finishes as its lines are fitted, and an open one is refused. -/
theorem finish?_eq (script : Script) : script.finish? = match script.branch with
    | none => fitProgram? script.limits script.lines
    | some _ => some (.error (.unclosedConditional script.listing.size (script.current.getD ""))) := by
  unfold finish? finish
  cases script.branch with
  | none => rfl
  | some _ => rfl

end Lines

/-- A history with statements that are refused, lines in the preamble between a closed body and its
`else`, and containers entered again. -/
def detour : List Step :=
  [.openElse, .goto "f", .openIf true [], .goto "g", .maxHealth 20, .fullHeal, .close,
    .preamble { text := "fullHeal", tag := .misc }, .openElse, .openIf false [], .exit, .close,
    .openElse, .close, .goto "g", .emit { text := "maxHealth 5", tag := .comment }, .goto "f",
    .call "g"]

theorem detour_plain : ∀ step ∈ detour, step.Plain := by
  simp [detour, Step.Plain, Tag.isPlain, Tag.opens, Tag.closesBody]

end StatScript.Script
