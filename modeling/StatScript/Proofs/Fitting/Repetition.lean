import StatScript.Proofs.Fitting.Health
import StatScript.Proofs.Fitting.Settled

/-!
# Fitting twice

A fitted program is fitted already. To the second pass fillers are conditionals of the program,
auxiliary containers are containers of the program, and placeholders are where counting starts anew;
lines that set the maximal health have their last word.

Results:
1. `Settled.fit_eq`, `fitContainers_eq`: fitting settled containers changes nothing.
2. `fitProgram_nested`, `fitProgram_flagged`: a fitted program passes the check, and no line of it is
   fused.
3. `fitProgram_idempotent`: fitting a fitted program gives the same program, and adds nothing.
-/

namespace StatScript.Fitting

/-! ## Settled programs -/

section Settled

variable {limits : Limits} {room : Room} {lines : List Line} {containers : List Segment}

theorem Settled.fit_eq (settled : Settled limits room lines) (base : Option String)
    (supply : Supply) : fit limits base room supply lines = { lines, supply } := by
  induction settled with
  | nil place => simp [fit, fillerEnd, place]
  | cons kept _ ih =>
      rw [fit_keep kept.judge_eq, ih]
      rfl

theorem fitSegment_eq {segment : Segment} (settled : Settled limits {} segment.body)
    (supply : Supply) :
    fitSegment limits supply segment = ({ lines := segment.lines }, supply.restart) := by
  unfold fitSegment
  rw [settled.fit_eq]
  simp only [relocate, Fitted.outcome, List.map_nil, List.append_nil]
  refine Prod.ext ?_ rfl
  show Outcome.mk (segment.header.toList ++ segment.body ++ []) [] [] 0 = _
  rw [List.append_nil, Segment.lines]

theorem fitSegments_eq (settled : ∀ segment ∈ containers, Settled limits {} segment.body)
    (supply : Supply) :
    fitSegments limits supply containers = { lines := containers.flatMap Segment.lines } := by
  induction containers generalizing supply with
  | nil => rfl
  | cons segment rest ih =>
      obtain ⟨first, others⟩ := List.forall_mem_cons.mp settled
      simp only [fitSegments, fitSegment_eq first, ih others]
      rfl

/-- Fitting settled containers changes nothing. -/
theorem fitContainers_eq
    (settled : ∀ segment ∈ segments headerName? lines, Settled limits {} segment.body) :
    fitContainers limits lines = { lines } := by
  have whole : (segments headerName? lines).flatMap Segment.lines = lines :=
    cut_flatten headerName? lines
  rw [fitContainers, fitSegments_eq settled, whole]

end Settled

/-! ## Fitted programs -/

section Fitted

variable {limits : Limits} {lines : List Line} {outcome : Outcome}

theorem nested_of_segments
    (nested : ∀ segment ∈ segments headerName? lines, Nested .outside segment.body) :
    Nested .outside lines := by
  obtain ⟨first, others⟩ := List.forall_mem_cons.mp nested
  rw [← cut_flatten headerName? lines, nested_flatten (cut_headed headerName? lines).2]
  exact ⟨first, others⟩

theorem walk_comments {position : Position} {comments : List Line}
    (tags : ∀ line ∈ comments, line.tag = .comment) : position.walk comments = some position :=
  walk_plain fun line member => by rw [tags line member]; rfl

theorem nested_outcome (limits : Limits) (base : Option String) (supply : Supply)
    (body : List Line) (headless : Headless body) (nested : Nested .outside body) :
    Nested .outside (fit limits base {} supply body).outcome.lines := by
  have written : Nested .outside (fit limits base {} supply body).lines :=
    (course_start limits base supply headless nested).nested
  unfold Nested at written ⊢
  rw [Fitted.outcome, walk_append, written]
  refine walk_comments fun line member => ?_
  obtain ⟨number, -, rfl⟩ := List.mem_map.mp member
  rfl

/-- A fitted program is well nested. -/
theorem fitProgram_nested (conditionals : 1 ≤ limits.conditionals)
    (fits : fitProgram limits lines = .ok outcome) : Nested .outside outcome.lines :=
  nested_of_segments (fitProgram_bodies conditionals fits (fun same => nested_congr same)
    fun base supply body headless nested _ =>
      nested_outcome limits base supply body headless nested)

theorem flagged_inserted {line : Line} (inserted : Inserted line) : Flagged line := by
  cases inserted with
  | filler => exact unflaggedAmount?_append "if and" " () " "\x7b" ⟨'i', by decide⟩
  | closing => exact unflaggedAmount?_append "\x7d" "" "" ⟨'}', by decide⟩
  | call name => exact unflaggedAmount?_append "function \"" name "\"" ⟨'f', by decide⟩
  | placeholder number =>
      exact unflaggedAmount?_append "// function \"" (placeholderName number) "\"" ⟨'/', by decide⟩

theorem flagged_trailingLine (number : Nat) : Flagged (trailingLine number) :=
  unflaggedAmount?_append "// goto function \"" (placeholderName number) "\"" ⟨'/', by decide⟩

theorem flagged_headerLine (name : String) : Flagged (headerLine name) :=
  unflaggedAmount?_append headerLead name "\"" ⟨'g', by decide⟩

theorem Flagged.congr {line other : Line} (flagged : Flagged line)
    (same : other.bare = line.bare) : Flagged other := by
  have text : other.bare.text = line.bare.text := congrArg Line.text same
  exact (congrArg unflaggedAmount? text).trans flagged

theorem flagged_congr {lines others : List Line}
    (same : others.map Line.bare = lines.map Line.bare) (flagged : ∀ line ∈ lines, Flagged line) :
    ∀ line ∈ others, Flagged line := by
  intro other member
  have bare : other.bare ∈ lines.map Line.bare := same ▸ List.mem_map.mpr ⟨other, member, rfl⟩
  obtain ⟨line, listed, line_eq⟩ := List.mem_map.mp bare
  exact (flagged line listed).congr line_eq.symm

theorem flagged_outcome (limits : Limits) (base : Option String) (supply : Supply)
    (body : List Line) (headless : Headless body) (nested : Nested .outside body)
    (source : ∀ line ∈ body, Flagged line) :
    ∀ line ∈ (fit limits base {} supply body).outcome.lines, Flagged line := by
  have course := course_start limits base supply headless nested
  refine List.forall_mem_append.mpr
    ⟨course.forall_lines (fun line => flagged_inserted) source, fun line member => ?_⟩
  obtain ⟨number, -, rfl⟩ := List.mem_map.mp member
  exact flagged_trailingLine number

/-- No line of a fitted program is fused. -/
theorem fitProgram_flagged (conditionals : 1 ≤ limits.conditionals)
    (fits : fitProgram limits lines = .ok outcome) : ∀ line ∈ outcome.lines, Flagged line := by
  have source : ∀ line ∈ fuseHealth lines, Flagged line :=
    fun line member => (mem_fuseHealth member).flagged
  have bodies := fitProgram_bodies conditionals fits flagged_congr
    fun base supply body headless nested subset =>
      flagged_outcome limits base supply body headless nested
        fun line member => source line (subset member)
  intro line member
  obtain ⟨segment, listed, header | body⟩ := mem_segments.mp member
  · obtain ⟨groups, grouped, -, all⟩ := fitProgram_groups conditionals fits
    obtain ⟨container, belongs, same⟩ := exists_container all listed
    have headers : container.header.map Line.bare = segment.header.map Line.bare :=
      congrArg Segment.header same
    rw [header, Option.map_some, Option.map_eq_some_iff] at headers
    obtain ⟨written, headed, line_eq⟩ := headers
    refine Flagged.congr ?_ line_eq.symm
    rcases grouped.headers belongs headed with ⟨original, listed, headed⟩ | ⟨name, rfl⟩
    · exact source written (mem_segments.mpr ⟨original, listed, .inl headed⟩)
    · exact flagged_headerLine name
  · exact bodies segment listed line body

/-- Fitting a fitted program gives the same program, and adds nothing. -/
theorem fitProgram_idempotent (changes : 1 ≤ limits.changes)
    (conditionals : 1 ≤ limits.conditionals) (fits : fitProgram limits lines = .ok outcome) :
    ∃ again, fitProgram limits outcome.lines = .ok again ∧ again.lines = outcome.lines ∧
      again.fillers = 0 ∧ again.auxiliary = [] ∧ again.warnings = [] := by
  have fused : fuseHealth outcome.lines = outcome.lines :=
    fuseHealth_eq_self (fitProgram_flagged conditionals fits)
  have settled := fitContainers_eq (fitProgram_settled changes conditionals fits)
  have depths : Line.reindent outcome.lines = outcome.lines := by
    obtain ⟨-, rfl⟩ := fitProgram_eq_ok.mp fits
    exact reindent_reindent _
  refine ⟨{ lines := outcome.lines }, ?_, rfl, rfl, rfl, rfl⟩
  rw [fitProgram_eq_ok, fused, settled, Outcome.reindent, depths]
  exact ⟨fitProgram_nested conditionals fits, rfl⟩

theorem fitProgram_idempotent_crowded :
    ∃ outcome, fitProgram ⟨1, 1⟩ crowded = .ok outcome ∧ outcome.auxiliary = ["f 1", "f 2"] ∧
      ∃ again, fitProgram ⟨1, 1⟩ outcome.lines = .ok again ∧ again.lines = outcome.lines ∧
        again.fillers = 0 ∧ again.auxiliary = [] ∧ again.warnings = [] :=
  ⟨_, fitProgram_crowded, auxiliary_crowded,
    fitProgram_idempotent (by decide) (by decide) fitProgram_crowded⟩

end Fitted

end StatScript.Fitting
