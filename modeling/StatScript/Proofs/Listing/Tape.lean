import StatScript.Listing

/-!
# Listings as one list of lines

A listing keeps its preamble apart from its body. Its lines can as well stand in one list, with a cursor behind the
preamble: then a line is put into the preamble at the cursor, marks are places in the whole list, and the cursor
keeps a cut from taking lines of the preamble away. Or only the body is kept, as a plain list behind a number of
lines that it knows nothing else of. Written in the same way, all three give the same answers and stay in step.

Results:
1. `edit_tape`, `edit_behind`: each edit of a listing is the edit of its tape, and that of its body.
2. `replay_tape`, `replay_behind`: so are the edits of a whole replay.
3. `preamble_replay`: the preamble holds the lines that were put into it.
4. `replay_splits`: so a tape is a preamble and a plain body behind it, whatever was edited in whatever order.
-/

namespace StatScript

/-- One way to write in the lines of a container. -/
inductive Edit where
  | push (line : Line)
  | pushPreamble (line : Line)
  | fuse (suffix : String) (tag : Tag)
  | deepen
  | raise
  | extend (lines : List Line)
  | truncate (mark : Nat)
  | drain (mark : Nat)
deriving DecidableEq, Repr

/-- What an edit gives back. It fails where a place is beyond the end. -/
inductive Answer where
  | done
  | refused (error : StructureError)
  | taken (lines : List Line)
  | failed
deriving DecidableEq, Repr

/-- The answers to edits, one after another, and the state that they lead to. -/
def replay {σ : Type} (step : σ → Edit → Answer × σ) (state : σ) : List Edit → List Answer × σ
  | [] => ([], state)
  | edit :: rest =>
      let (answer, next) := step state edit
      let (answers, last) := replay step next rest
      (answer :: answers, last)

/-- The lines that an edit puts into the preamble. -/
def Edit.given : Edit → List Line
  | pushPreamble line => [{ line with indent := 0 }]
  | _ => []

/-- A line that is put into the preamble does not end a first body, so nothing can be fused onto it. -/
def Edit.Closeless : Edit → Prop
  | pushPreamble line => line.tag ≠ .close
  | _ => True

/-! ## Three ways to keep lines -/

/-- An edit of a listing. -/
def Listing.edit (listing : Listing) : Edit → Answer × Listing
  | .push line => (.done, listing.push line)
  | .pushPreamble line => (.done, listing.pushPreamble line)
  | .fuse suffix tag =>
      match listing.fuse suffix tag with
      | .ok fused => (.done, fused)
      | .error error => (.refused error, listing)
  | .deepen => (.done, listing.deepen)
  | .raise => (.done, listing.raise)
  | .extend lines => (.done, listing.extend lines)
  | .truncate mark => (.done, listing.truncate mark)
  | .drain mark =>
      match listing.drain? mark with
      | some (lines, rest) => (.taken lines, rest)
      | none => (.failed, listing)

/-- All lines in one list, with a cursor behind those of the preamble. -/
structure Tape where
  lines : List Line := []
  cursor : Nat := 0
  indent : Nat := 0
deriving DecidableEq, Repr

/-- An edit of a tape. A cut begins at the mark, but not before the cursor. -/
def Tape.edit (tape : Tape) : Edit → Answer × Tape
  | .push line => (.done, { tape with lines := tape.lines ++ [{ line with indent := tape.indent }] })
  | .pushPreamble line =>
      if tape.cursor ≤ tape.lines.length then
        let lines := tape.lines.take tape.cursor ++ { line with indent := 0 } :: tape.lines.drop tape.cursor
        (.done, { tape with lines, cursor := tape.cursor + 1 })
      else (.failed, tape)
  | .fuse suffix tag =>
      match tape.lines.getLast? with
      | none => (.refused (.nothingToFuse suffix), tape)
      | some last =>
          if last.tag = .close ∧ tape.indent = 0 then
            let fused := { last with text := last.text ++ suffix, tag }
            (.done, { tape with lines := tape.lines.dropLast ++ [fused] })
          else (.refused (.elseWithoutIf tape.lines.length), tape)
  | .deepen => (.done, { tape with indent := tape.indent + 1 })
  | .raise => (.done, { tape with indent := tape.indent - 1 })
  | .extend lines => (.done, { tape with lines := tape.lines ++ lines })
  | .truncate mark => (.done, { tape with lines := tape.lines.take (max mark tape.cursor) })
  | .drain mark =>
      let start := max mark tape.cursor
      if start ≤ tape.lines.length then
        (.taken (tape.lines.drop start), { tape with lines := tape.lines.take start })
      else (.failed, tape)

/-- A plain list of lines behind `front` others. -/
structure Body where
  lines : List Line := []
  front : Nat := 0
  indent : Nat := 0
deriving DecidableEq, Repr

/-- An edit of a body. Marks count from the start of the lines before it, and one before the body is its start. -/
def Body.edit (body : Body) : Edit → Answer × Body
  | .push line => (.done, { body with lines := body.lines ++ [{ line with indent := body.indent }] })
  | .pushPreamble _ => (.done, { body with front := body.front + 1 })
  | .fuse suffix tag =>
      match body.lines.getLast? with
      | none => (.refused (if body.front = 0 then .nothingToFuse suffix else .elseWithoutIf body.front), body)
      | some last =>
          if last.tag = .close ∧ body.indent = 0 then
            let fused := { last with text := last.text ++ suffix, tag }
            (.done, { body with lines := body.lines.dropLast ++ [fused] })
          else (.refused (.elseWithoutIf (body.front + body.lines.length)), body)
  | .deepen => (.done, { body with indent := body.indent + 1 })
  | .raise => (.done, { body with indent := body.indent - 1 })
  | .extend lines => (.done, { body with lines := body.lines ++ lines })
  | .truncate mark => (.done, { body with lines := body.lines.take (mark - body.front) })
  | .drain mark =>
      if max mark body.front ≤ body.front + body.lines.length then
        (.taken (body.lines.drop (mark - body.front)),
          { body with lines := body.lines.take (mark - body.front) })
      else (.failed, body)

namespace Listing

/-- The lines of a listing as a tape. -/
def tape (listing : Listing) : Tape :=
  { lines := listing.lines, cursor := listing.preamble.length, indent := listing.indent }

/-- The lines of a listing behind its preamble. -/
def behind (listing : Listing) : Body :=
  { lines := listing.body, front := listing.preamble.length, indent := listing.indent }

/-- No line of the preamble ends a first body. -/
def Closeless (listing : Listing) : Prop :=
  ∀ line ∈ listing.preamble, line.tag ≠ .close

/-! ## One edit -/

/-- A mark before the cursor cuts at the cursor. -/
theorem max_sub_self (mark cursor : Nat) : max mark cursor - cursor = mark - cursor := by
  omega

section Edits

variable (listing : Listing)

/-- A cut of a listing is one of its tape, at the mark but not before the cursor. -/
theorem tape_truncate (mark : Nat) :
    (listing.truncate mark).tape =
      { listing.tape with lines := listing.lines.take (max mark listing.preamble.length) } := by
  rw [lines, List.take_append, List.take_of_length_le (Nat.le_max_right ..), max_sub_self]
  rfl

theorem drop_lines (mark : Nat) :
    listing.lines.drop (max mark listing.preamble.length) =
      listing.body.drop (mark - listing.preamble.length) := by
  rw [lines, List.drop_append, List.drop_of_length_le (Nat.le_max_right ..), max_sub_self, List.nil_append]

/-- A mark is within the body iff it, and the end of the preamble, are within all lines. -/
theorem sub_le_length_body_iff (mark : Nat) :
    mark - listing.preamble.length ≤ listing.body.length ↔
      max mark listing.preamble.length ≤ listing.lines.length := by
  rw [lines, List.length_append]
  omega

variable {listing} in
/-- A drain takes the lines of the body from its mark on. -/
theorem edit_drain_of_le {mark : Nat} (within : max mark listing.preamble.length ≤ listing.lines.length) :
    listing.edit (.drain mark) =
      (.taken (listing.body.drop (mark - listing.preamble.length)), listing.truncate mark) := by
  simp only [Listing.edit, drain?, if_pos ((listing.sub_le_length_body_iff mark).mpr within)]

variable {listing} in
/-- A drain beyond the end fails and changes nothing. -/
theorem edit_drain_of_lt {mark : Nat} (beyond : listing.lines.length < max mark listing.preamble.length) :
    listing.edit (.drain mark) = (.failed, listing) := by
  have outside := mt (listing.sub_le_length_body_iff mark).mp (Nat.not_le.mpr beyond)
  simp only [Listing.edit, drain?, if_neg outside]

/-- It fails only there. -/
theorem edit_drain_eq_failed (mark : Nat) :
    (listing.edit (.drain mark)).1 = .failed ↔ listing.lines.length < max mark listing.preamble.length := by
  rcases Nat.lt_or_ge listing.lines.length (max mark listing.preamble.length) with beyond | within
  · exact iff_of_true (congrArg Prod.fst (edit_drain_of_lt beyond)) beyond
  · refine iff_of_false (fun failed => ?_) (Nat.not_lt.mpr within)
    rw [edit_drain_of_le within] at failed
    cases failed

/-- Whether the last line is one of the body or of the preamble, it is the last line of the tape. -/
theorem tape_setLast (nonempty : listing.lines ≠ []) (line : Line) :
    (listing.setLast line).tape = { listing.tape with lines := listing.lines.dropLast ++ [line] } := by
  obtain ⟨preamble, body, indent⟩ := listing
  cases body with
  | nil =>
      have kept : 0 < preamble.length := List.length_pos_iff.mpr (by simpa [lines] using nonempty)
      have length : preamble.length - 1 + 1 = preamble.length := Nat.sub_add_cancel kept
      simp [setLast, tape, lines, length]
  | cons first rest => simp [setLast, tape, lines]

theorem edit_tape_fuse (suffix : String) (tag : Tag) :
    listing.tape.edit (.fuse suffix tag) =
      ((listing.edit (.fuse suffix tag)).1, (listing.edit (.fuse suffix tag)).2.tape) := by
  unfold Tape.edit Listing.edit Listing.fuse
  show (match listing.lines.getLast? with | none => _ | some last => _) = _
  cases last : listing.lines.getLast? with
  | none => rfl
  | some line =>
      have nonempty : listing.lines ≠ [] := by
        intro empty
        rw [empty] at last
        cases last
      by_cases admitted : line.tag = .close ∧ listing.indent = 0
      · simp only [if_pos admitted, tape_setLast listing nonempty]
        exact if_pos admitted
      · simp only [if_neg admitted]
        exact if_neg admitted

/-- Each edit of a listing is the edit of its tape. -/
theorem edit_tape (edit : Edit) :
    listing.tape.edit edit = ((listing.edit edit).1, (listing.edit edit).2.tape) := by
  cases edit with
  | push line => simp [Tape.edit, Listing.edit, tape, push, pushAll, extend, lines]
  | pushPreamble line => simp [Tape.edit, Listing.edit, tape, pushPreamble, lines]
  | fuse suffix tag => exact listing.edit_tape_fuse suffix tag
  | deepen => rfl
  | raise => rfl
  | extend further => simp [Tape.edit, Listing.edit, tape, extend, lines]
  | truncate mark => exact congrArg (Prod.mk _) (listing.tape_truncate mark).symm
  | drain mark =>
      rcases Nat.lt_or_ge listing.lines.length (max mark listing.preamble.length) with beyond | within
      · rw [edit_drain_of_lt beyond]
        exact if_neg (Nat.not_le.mpr beyond)
      · rw [edit_drain_of_le within, ← drop_lines]
        exact (if_pos within).trans (congrArg (Prod.mk _) (listing.tape_truncate mark).symm)

variable {listing}

/-- Nothing is fused onto a line of the preamble, so only the body decides. -/
theorem fuse_of_closeless (closeless : listing.Closeless) (suffix : String) (tag : Tag) :
    listing.fuse suffix tag =
      match listing.body.getLast? with
      | none => .error (if listing.preamble.length = 0 then .nothingToFuse suffix
          else .elseWithoutIf listing.preamble.length)
      | some last =>
          if last.tag = .close ∧ listing.indent = 0 then
            .ok { listing with body := listing.body.dropLast ++ [{ last with text := last.text ++ suffix, tag }] }
          else .error (.elseWithoutIf (listing.preamble.length + listing.body.length)) := by
  obtain ⟨preamble, body, indent⟩ := listing
  rcases body.eq_nil_or_concat with rfl | ⟨before, last, rfl⟩
  · rw [fuse, size, lines, List.append_nil]
    cases closing : preamble.getLast? with
    | none =>
        obtain rfl := List.getLast?_eq_none_iff.mp closing
        rfl
    | some line =>
        have member := List.mem_of_getLast? closing
        have kept : preamble.length ≠ 0 := Nat.ne_of_gt (List.length_pos_of_mem member)
        have differs : ¬ (line.tag = .close ∧ indent = 0) := fun same => closeless line member same.1
        simp only [if_neg differs, List.getLast?_nil, if_neg kept]
  · simp [fuse, size, lines, setLast]

/-- Each edit of a listing is the edit of its body, unless a line of the preamble could be fused. -/
theorem edit_behind (closeless : listing.Closeless) (edit : Edit) :
    listing.behind.edit edit = ((listing.edit edit).1, (listing.edit edit).2.behind) := by
  cases edit with
  | push line => rfl
  | pushPreamble line => simp [Body.edit, Listing.edit, behind, pushPreamble]
  | fuse suffix tag =>
      simp only [Body.edit, Listing.edit, fuse_of_closeless closeless, behind]
      cases listing.body.getLast? with
      | none => rfl
      | some last =>
          by_cases admitted : last.tag = .close ∧ listing.indent = 0
          · simp only [if_pos admitted]
            exact if_pos admitted
          · simp only [if_neg admitted]
            exact if_neg admitted
  | deepen => rfl
  | raise => rfl
  | extend further => rfl
  | truncate mark => rfl
  | drain mark =>
      rcases Nat.lt_or_ge listing.lines.length (max mark listing.preamble.length) with beyond | within
      · rw [edit_drain_of_lt beyond]
        exact if_neg (List.length_append ▸ Nat.not_le.mpr beyond)
      · rw [edit_drain_of_le within]
        exact if_pos (List.length_append ▸ within)

/-- An edit adds to the preamble what it puts there, and changes nothing else in it. -/
theorem preamble_edit (closeless : listing.Closeless) (edit : Edit) :
    (listing.edit edit).2.preamble = listing.preamble ++ edit.given := by
  cases edit with
  | pushPreamble line => rfl
  | fuse suffix tag =>
      simp only [Listing.edit, fuse_of_closeless closeless, Edit.given, List.append_nil]
      cases listing.body.getLast? with
      | none => rfl
      | some last =>
          by_cases admitted : last.tag = .close ∧ listing.indent = 0
          · simp only [if_pos admitted]
          · simp only [if_neg admitted]
  | drain mark =>
      rcases Nat.lt_or_ge listing.lines.length (max mark listing.preamble.length) with beyond | within
      · rw [edit_drain_of_lt beyond]
        exact (List.append_nil _).symm
      · rw [edit_drain_of_le within]
        exact (List.append_nil _).symm
  | push | deepen | raise | extend | truncate => exact (List.append_nil _).symm

theorem Closeless.edit (closeless : listing.Closeless) {edit : Edit} (given : edit.Closeless) :
    (listing.edit edit).2.Closeless := by
  have added : ∀ line ∈ edit.given, line.tag ≠ .close := by
    cases edit with
    | pushPreamble line => exact List.forall_mem_singleton.mpr given
    | _ => exact List.forall_mem_nil _
  rw [Listing.Closeless, preamble_edit closeless]
  exact List.forall_mem_append.mpr ⟨closeless, added⟩

end Edits

end Listing

/-! ## All edits -/

/-- Where one kind of state is a view of the other and each edit agrees, a replay does. -/
theorem replay_view {σ τ : Type} {step : σ → Edit → Answer × σ} {step' : τ → Edit → Answer × τ} (view : σ → τ)
    (Holds : σ → Prop) {edits : List Edit}
    (keeps : ∀ state, Holds state → ∀ edit ∈ edits, Holds (step state edit).2)
    (agrees : ∀ state, Holds state → ∀ edit,
      step' (view state) edit = ((step state edit).1, view (step state edit).2))
    (state : σ) (start : Holds state) :
    replay step' (view state) edits = ((replay step state edits).1, view (replay step state edits).2) := by
  induction edits generalizing state with
  | nil => rfl
  | cons edit rest ih =>
      have rest_eq := ih (fun state held edit member => keeps state held edit (List.mem_cons_of_mem _ member))
        _ (keeps state start edit List.mem_cons_self)
      simp only [replay, agrees state start, rest_eq]

namespace Listing

/-- The preamble holds the lines that were put into it, in their order. -/
theorem preamble_replay {listing : Listing} {edits : List Edit} (closeless : listing.Closeless)
    (given : ∀ edit ∈ edits, edit.Closeless) :
    (replay edit listing edits).2.preamble = listing.preamble ++ edits.flatMap Edit.given := by
  induction edits generalizing listing with
  | nil => exact (List.append_nil _).symm
  | cons edit rest ih =>
      obtain ⟨first, further⟩ := List.forall_mem_cons.mp given
      rw [List.flatMap_cons, ← List.append_assoc, ← preamble_edit closeless]
      exact ih (closeless.edit first) further

theorem closeless_empty : Closeless {} :=
  List.forall_mem_nil _

/-- A tape that is edited like a listing gives the same answers and keeps the same lines. -/
theorem replay_tape (edits : List Edit) :
    replay Tape.edit {} edits = ((replay edit {} edits).1, (replay edit {} edits).2.tape) :=
  replay_view tape (fun _ => True) (fun _ _ _ _ => trivial) (fun listing _ => listing.edit_tape) {} trivial

/-- A body does too, as long as nothing can be fused onto the lines before it. -/
theorem replay_behind (edits : List Edit) (given : ∀ edit ∈ edits, edit.Closeless) :
    replay Body.edit {} edits = ((replay edit {} edits).1, (replay edit {} edits).2.behind) :=
  replay_view behind Closeless (fun _ closeless edit member => closeless.edit (given edit member))
    (fun _ => edit_behind) {} closeless_empty

/-- A listing, a tape and a body that are edited in the same way, from empty ones and in whatever order, give the
same answers. The cursor of the tape is never beyond its end. Before it stand the lines that were put into the
preamble, in their order and at depth zero, and behind it the lines of the body. A drain fails iff its mark, or the
cursor, is beyond the end, and then nothing changes. -/
theorem replay_splits (edits : List Edit) (given : ∀ edit ∈ edits, edit.Closeless) :
    let (answers, listing) := replay Listing.edit {} edits
    let (answers', tape) := replay Tape.edit {} edits
    let (answers'', body) := replay Body.edit {} edits
    answers' = answers ∧ answers'' = answers ∧
      tape.lines = listing.lines ∧ tape.indent = listing.indent ∧ tape.indent = body.indent ∧
      tape.cursor ≤ tape.lines.length ∧
      tape.lines.take tape.cursor = edits.flatMap Edit.given ∧
      tape.lines.drop tape.cursor = body.lines ∧ tape.cursor = body.front ∧
      ∀ mark, ((tape.edit (.drain mark)).1 = .failed ↔ tape.lines.length < max mark tape.cursor) ∧
        ((listing.edit (.drain mark)).1 = .failed ↔ tape.lines.length < max mark tape.cursor) ∧
        (tape.lines.length < max mark tape.cursor →
          (tape.edit (.drain mark)).2 = tape ∧ (listing.edit (.drain mark)).2 = listing) := by
  have preamble := preamble_replay closeless_empty given
  rw [replay_tape, replay_behind edits given]
  generalize replay edit {} edits = last at preamble ⊢
  obtain ⟨answers, listing⟩ := last
  have within : listing.tape.cursor ≤ listing.tape.lines.length := by
    show listing.preamble.length ≤ (listing.preamble ++ listing.body).length
    rw [List.length_append]
    exact Nat.le_add_right ..
  refine ⟨rfl, rfl, rfl, rfl, rfl, within, List.take_left.trans preamble, List.drop_left, rfl, fun mark => ?_⟩
  have failed := listing.edit_drain_eq_failed mark
  rw [edit_tape]
  refine ⟨failed, failed, fun beyond => ?_⟩
  rw [edit_drain_of_lt beyond]
  exact ⟨rfl, rfl⟩

/-- Edits in which the preamble grows between cuts of the body. One cut is at a mark from before, one would reach
into the preamble, and one is beyond the end; nothing can be fused onto the lines of the preamble alone. -/
def rewrites : List Edit :=
  [.push { text := "a", tag := .misc }, .deepen, .pushPreamble { text := "// first", tag := .comment, indent := 3 },
    .push { text := "b", tag := .misc }, .truncate 2, .raise, .extend [{ text := "\x7d", tag := .close, indent := 4 }],
    .fuse " else" .elseOpen, .drain 7, .pushPreamble { text := "// second", tag := .comment }, .drain 1,
    .fuse " else" .elseOpen, .push { text := "c", tag := .exit }]

theorem replay_splits_rewrites :
    (∀ edit ∈ rewrites, edit.Closeless) ∧
      (replay Tape.edit {} rewrites).1 = (replay edit {} rewrites).1 ∧
      (replay Tape.edit {} rewrites).2.lines.map Line.text = ["// first", "// second", "c"] ∧
      (replay Tape.edit {} rewrites).2.lines.take 2 =
        [{ text := "// first", tag := .comment }, { text := "// second", tag := .comment }] ∧
      Answer.failed ∈ (replay edit {} rewrites).1 := by
  have closeless : ∀ edit ∈ rewrites, edit.Closeless := by simp [rewrites, Edit.Closeless]
  obtain ⟨tape, -, -, -, -, -, preamble, -⟩ := replay_splits rewrites closeless
  exact ⟨closeless, tape, rfl, preamble, by decide⟩

end Listing

end StatScript
