import StatScript.Proofs.Fitting.Names

/-!
# Stripping

Fitting inserts fillers and placeholders. A body stripped of what may have been inserted can be
compared with the body that it was fitted from.

Results:
1. `Course.bodyEnd`: a body is written up to its own end, and a filler up to its closing line.
2. `Course.splices`: a fitted body, stripped, is the stripped body with calls in the place of what was
   moved out.
-/

namespace StatScript.Fitting

/-! ## Stripping -/

/-- What stands before the number in the comment that answers a placeholder. -/
def trailingLead : String := "// goto function \"unnamed "

/-- Whether a line is a comment that begins like a placeholder or like the answer to one. -/
def isMark (line : Line) : Bool :=
  line.tag = .comment &&
    (Text.beginsWith placeholderLead line.text || Text.beginsWith trailingLead line.text)

/-- Whether a line opens a conditional without conditions, as a filler does. -/
def opensFiller (line : Line) : Bool :=
  line.tag = .openAll && line.text = fillerLine.text

/-- The line that ends the body before these lines. -/
def bodyEnd? (lines : List Line) : Option Line :=
  lines.find? fun line => line.tag.closesBody

/-- Whether the body before these lines is followed by an `else`. -/
def continuesInElse (lines : List Line) : Bool :=
  (bodyEnd? lines).any fun line => line.tag = .elseOpen

/-- The lines without marks and without the first and last line of each conditional that has neither
conditions nor an `else`. Such a conditional is open at the start if `inFiller`. -/
def strip (inFiller : Bool) : List Line → List Line
  | [] => []
  | line :: rest =>
      if isMark line then strip inFiller rest
      else if opensFiller line && !continuesInElse rest then strip true rest
      else if inFiller && line.tag.closes then strip false rest
      else line :: strip inFiller rest

section Strip

variable {inFiller : Bool} {line : Line} {rest : List Line}

theorem isMark_of_tag (tag : line.tag ≠ .comment) : isMark line = false := by
  simp [isMark, tag]

theorem strip_mark (mark : isMark line) : strip inFiller (line :: rest) = strip inFiller rest := by
  rw [strip, if_pos mark]

/-- A line that neither opens nor closes a conditional is kept, unless it is a mark. -/
theorem strip_kept (mark : isMark line = false) (opens : line.tag.opens = false)
    (closes : line.tag.closes = false) :
    strip inFiller (line :: rest) = line :: strip inFiller rest := by
  have filler : opensFiller line = false := by
    cases tag : line.tag <;> simp_all [opensFiller, Tag.opens]
  rw [strip, if_neg (by simp [mark]), if_neg (by simp [filler]), if_neg (by simp [closes])]

theorem strip_closes (closes : line.tag.closes) :
    strip inFiller (line :: rest) =
      if inFiller then strip false rest else line :: strip false rest := by
  have mark : isMark line = false :=
    isMark_of_tag fun tag => by rw [tag] at closes; cases closes
  have filler : opensFiller line = false := by
    cases tag : line.tag <;> simp_all [opensFiller, Tag.closes]
  rw [strip, if_neg (by simp [mark]), if_neg (by simp [filler])]
  cases inFiller <;> simp [closes]

theorem strip_opens (opens : line.tag.opens) :
    strip false (line :: rest) =
      if opensFiller line && !continuesInElse rest then strip true rest
      else line :: strip false rest := by
  have mark : isMark line = false :=
    isMark_of_tag fun tag => by rw [tag] at opens; cases opens
  rw [strip, if_neg (by simp [mark])]
  rfl

/-- A filler is stripped if it ends at a closing line. -/
theorem strip_filler (ends : bodyEnd? rest = some Line.closing) :
    strip false (fillerLine :: rest) = strip true rest := by
  rw [strip_opens rfl, continuesInElse, ends]
  rfl

/-- Plain lines are stripped one by one. -/
theorem strip_plain_append {lines : List Line} (plain : ∀ line ∈ lines, line.tag.isPlain)
    (inFiller behind : Bool) (rest : List Line) :
    strip inFiller (lines ++ rest) = strip behind lines ++ strip inFiller rest := by
  induction lines with
  | nil => rfl
  | cons line lines ih =>
      obtain ⟨first, others⟩ := List.forall_mem_cons.mp plain
      rw [List.cons_append]
      cases mark : isMark line with
      | true => rw [strip_mark mark, strip_mark mark, ih others]
      | false =>
          have opens := (Tag.isPlain_iff.mp first).1
          have closes := Tag.closes_of_isPlain first
          rw [strip_kept mark opens closes, strip_kept mark opens closes, ih others]
          rfl

/-- What is left of lines are some of them. -/
theorem strip_subset (inFiller : Bool) (lines : List Line) : strip inFiller lines ⊆ lines := by
  induction lines generalizing inFiller with
  | nil => exact List.Subset.refl []
  | cons line rest ih =>
      rw [strip]
      split
      · exact List.subset_cons_of_subset line (ih _)
      · split
        · exact List.subset_cons_of_subset line (ih _)
        · split
          · exact List.subset_cons_of_subset line (ih _)
          · exact List.cons_subset_cons line (ih _)

theorem bodyEnd?_append_plain {marks : List Line} (plain : ∀ line ∈ marks, line.tag.isPlain) :
    bodyEnd? (rest ++ marks) = bodyEnd? rest := by
  have none : bodyEnd? marks = none :=
    List.find?_eq_none.mpr fun line member => by
      simp [(Tag.isPlain_iff.mp (plain line member)).2.1]
  rw [bodyEnd?, List.find?_append, ← bodyEnd?, ← bodyEnd?, none, Option.or_none]

theorem isPlain_of_isMark (mark : isMark line) : line.tag.isPlain := by
  rw [isMark, Bool.and_eq_true, decide_eq_true_eq] at mark
  rw [mark.1]
  rfl

/-- Marks at the end are stripped. -/
theorem strip_append_marks {marks : List Line} (allMarks : ∀ line ∈ marks, isMark line)
    (inFiller : Bool) (lines : List Line) :
    strip inFiller (lines ++ marks) = strip inFiller lines := by
  induction lines generalizing inFiller with
  | nil =>
      induction marks with
      | nil => rfl
      | cons mark marks ih =>
          obtain ⟨first, others⟩ := List.forall_mem_cons.mp allMarks
          exact (strip_mark first).trans (ih others)
  | cons line rest ih =>
      have ends : bodyEnd? (rest ++ marks) = bodyEnd? rest :=
        bodyEnd?_append_plain fun line member => isPlain_of_isMark (allMarks line member)
      rw [List.cons_append, strip, strip, continuesInElse, ends, ← continuesInElse, ih, ih, ih]

theorem bodyEnd?_cons_plain (plain : line.tag.isPlain) : bodyEnd? (line :: rest) = bodyEnd? rest :=
  List.find?_cons_of_neg (by simp [(Tag.isPlain_iff.mp plain).2.1])

theorem bodyEnd?_cons_ends (ends : line.tag.closesBody) : bodyEnd? (line :: rest) = some line :=
  List.find?_cons_of_pos (p := fun line : Line => line.tag.closesBody) ends

end Strip

/-! ## Fitted bodies -/

/-- A body is written up to its own end, and a filler up to its closing line. -/
theorem Course.bodyEnd {limits : Limits} {base : Option String} {position : Position} {room : Room}
    {supply : Supply} {lines : List Line} {fitted : Fitted}
    (course : Course limits base position room supply lines fitted) :
    (room.place = .conditional → bodyEnd? fitted.lines = bodyEnd? lines) ∧
      (room.place = .filler → bodyEnd? fitted.lines = some Line.closing) := by
  induction course with
  | done place => rw [place]; exact ⟨nofun, nofun⟩
  | endFiller place _ _ => rw [place]; exact ⟨nofun, fun _ => rfl⟩
  | plain plain _ place _ _ ih =>
      rw [place] at ih
      refine ⟨fun inside => ?_, fun inside => (bodyEnd?_cons_plain plain).trans (ih.2 inside)⟩
      exact (bodyEnd?_cons_plain plain).trans
        ((ih.1 inside).trans (bodyEnd?_cons_plain plain).symm)
  | @turn position after room next supply line rest fitted turns header stepped _ before _ stands _ _
      _ =>
      refine ⟨fun inside => ?_, fun inside => absurd inside before⟩
      have opens : line.tag.opens = false := by
        cases opens : line.tag.opens with
        | false => rfl
        | true => exact absurd (step_opens opens stepped).1 (stands.mp inside)
      have ends := Tag.closesBody_of_not_isPlain turns header opens
      exact (bodyEnd?_cons_ends ends).trans (bodyEnd?_cons_ends ends).symm
  | fill _ place _ _ _ _ => rw [place]; exact ⟨nofun, nofun⟩
  | moveRest _ place _ _ => rw [place]; exact ⟨nofun, nofun⟩
  | @moveBody position room next supply line rest name fitted _ place _ plain _ _ ih =>
      refine ⟨fun inside => ?_, fun inside => absurd (place.symm.trans inside) nofun⟩
      have skipped : bodyEnd? (rest.takeWhile staysInBody ++ rest.dropWhile staysInBody) =
          bodyEnd? (rest.dropWhile staysInBody) := by
        rw [bodyEnd?, List.find?_append, List.find?_eq_none.mpr, Option.none_or, bodyEnd?]
        intro line member
        simpa [staysInBody] using List.all_eq_true.mp List.all_takeWhile line member
      rw [List.takeWhile_append_dropWhile] at skipped
      calc bodyEnd? (callLine (supply.nextName name).1 :: fitted.lines)
          = bodyEnd? fitted.lines := bodyEnd?_cons_plain rfl
        _ = bodyEnd? (rest.dropWhile staysInBody) := ih.1 inside
        _ = bodyEnd? rest := skipped.symm
        _ = bodyEnd? (line :: rest) := (bodyEnd?_cons_plain (plain line List.mem_cons_self)).symm
  | markRest _ place _ _ _ _ _ _ => rw [place]; exact ⟨nofun, nofun⟩
  | markBody _ place behind _ plain _ _ ih =>
      refine ⟨fun _ => ?_, fun inside => absurd (place.symm.trans inside) nofun⟩
      exact (bodyEnd?_cons_plain rfl).trans ((bodyEnd?_cons_plain plain).trans
        ((ih.1 behind).trans (bodyEnd?_cons_plain plain).symm))

/-- `Splices moved written source`: `written` is `source` with calls of the relocations `moved`, in
order, in the place of their stripped lines. -/
inductive Splices : List Relocation → List Line → List Line → Prop
  | nil : Splices [] [] []
  | keep {moved : List Relocation} {written source : List Line} (line : Line) :
      Splices moved written source → Splices moved (line :: written) (line :: source)
  | call {moved : List Relocation} {written source : List Line} (relocation : Relocation) :
      Splices moved written source →
      Splices (relocation :: moved) (callLine relocation.name :: written)
        (strip false relocation.body ++ source)

/-- What is stripped at a place: whether the written lines and the lines of the program are in a
conditional without conditions. -/
inductive Strips : Place → Bool → Bool → Prop
  | outside : Strips .outside false false
  | filler : Strips .filler true false
  | conditional (inFiller : Bool) : Strips .conditional inFiller inFiller

/-- A line that opens a conditional is stripped from the written lines iff it is stripped from the
program. -/
theorem splices_opens {moved : List Relocation} {written source : List Line} {line : Line}
    (opens : line.tag.opens) (same : bodyEnd? written = bodyEnd? source)
    (splices : ∀ inFiller, Splices moved (strip inFiller written) (strip inFiller source)) :
    Splices moved (strip false (line :: written)) (strip false (line :: source)) := by
  rw [strip_opens opens, strip_opens opens, continuesInElse, same, ← continuesInElse]
  split
  · exact splices true
  · exact .keep line (splices false)

/-- A line that closes a conditional is stripped from the written lines iff it is stripped from the
program. -/
theorem splices_closes {moved : List Relocation} {written source : List Line} {line : Line}
    {inFiller : Bool} (closes : line.tag.closes)
    (splices : Splices moved (strip false written) (strip false source)) :
    Splices moved (strip inFiller (line :: written)) (strip inFiller (line :: source)) := by
  rw [strip_closes closes, strip_closes closes]
  split
  · exact splices
  · exact .keep line splices

theorem splices_kept {moved : List Relocation} {written source : List Line} {line : Line}
    {inFiller inFiller' : Bool} (mark : isMark line = false) (opens : line.tag.opens = false)
    (closes : line.tag.closes = false)
    (splices : Splices moved (strip inFiller written) (strip inFiller' source)) :
    Splices moved (strip inFiller (line :: written)) (strip inFiller' (line :: source)) := by
  rw [strip_kept mark opens closes, strip_kept mark opens closes]
  exact .keep line splices

/-- A plain line is stripped from the written lines iff it is stripped from the program. -/
theorem splices_plain {moved : List Relocation} {written source : List Line} {line : Line}
    {inFiller inFiller' : Bool} (plain : line.tag.isPlain)
    (splices : Splices moved (strip inFiller written) (strip inFiller' source)) :
    Splices moved (strip inFiller (line :: written)) (strip inFiller' (line :: source)) := by
  cases mark : isMark line with
  | true => rwa [strip_mark mark, strip_mark mark]
  | false =>
      exact splices_kept mark (Tag.isPlain_iff.mp plain).1 (Tag.closes_of_isPlain plain) splices

theorem isMark_placeholderLine (number : Nat) : isMark (placeholderLine number) := by
  have placeholder := isPlaceholder_placeholderLine number
  rw [isPlaceholder, Bool.and_eq_true] at placeholder
  simp only [isMark, placeholder, Bool.true_or, Bool.and_self]

theorem isMark_trailingLine (number : Nat) : isMark (trailingLine number) := by
  have parts : (trailingLine number).text =
      "// goto function \"" ++ ("unnamed " ++ number.repr) ++ "\"" := rfl
  have lead : trailingLead = "// goto function \"" ++ "unnamed " := by decide
  have text : (trailingLine number).text = trailingLead ++ (number.repr ++ "\"") := by
    rw [parts, lead, String.append_assoc, String.append_assoc, String.append_assoc]
  simp [isMark, text, show (trailingLine number).tag = .comment from rfl]

/-- A fitted body, stripped, is the stripped body with calls in the place of what was moved out. -/
theorem Course.splices {limits : Limits} {base : Option String} {position : Position} {room : Room}
    {supply : Supply} {lines : List Line} {fitted : Fitted}
    (course : Course limits base position room supply lines fitted) {written source : Bool}
    (strips : Strips room.place written source) :
    Splices fitted.moved (strip written fitted.lines) (strip source lines) := by
  -- Stripping the written lines and stripping the source are in step: both drop the conditionals that
  -- were fillers already, and only the former drops those that the course adds.
  induction course generalizing written source with
  | done _ => exact .nil
  | endFiller place _ ih =>
      rw [place] at strips
      cases strips
      exact ih .outside
  | plain plain _ place _ _ ih => exact splices_plain plain (ih (place ▸ strips))
  | @turn position after room next supply line rest fitted turns header stepped _ before behind
      stands stands' course ih =>
      cases opens : line.tag.opens with
      | true =>
          obtain ⟨rfl, rfl⟩ := step_opens opens stepped
          have inside : next.place = .conditional := stands'.mpr nofun
          rw [stands.place_eq_outside before] at strips
          cases strips
          exact splices_opens opens (course.bodyEnd.1 inside)
            fun inFiller => ih (inside ▸ .conditional inFiller)
      | false =>
          have ends := Tag.closesBody_of_not_isPlain turns header opens
          obtain ⟨inBody, left⟩ := step_closesBody ends stepped
          rw [stands.mpr inBody] at strips
          cases strips
          cases closes : line.tag.closes with
          | true =>
              obtain rfl := left.mpr closes
              have place := stands'.place_eq_outside behind
              exact splices_closes closes (ih (place ▸ .outside))
          | false =>
              have inside := stands'.mpr fun outside => by simp [closes] at left; exact left outside
              have mark : isMark line = false :=
                isMark_of_tag fun tag => by rw [tag] at ends; cases ends
              exact splices_kept mark opens closes (ih (inside ▸ .conditional _))
  | @fill room next supply line rest fitted kind tag place _ filled course ih =>
      rw [place] at strips
      cases strips
      have plain := Tag.isPlain_change tag
      -- A filler ends in a closing line and has no second body, so it is dropped.
      have ends := (bodyEnd?_cons_plain plain).trans (course.bodyEnd.2 (by rw [filled]))
      show Splices _ (strip false (fillerLine :: line :: fitted.lines)) _
      rw [strip_filler ends]
      exact splices_plain plain (ih (by rw [filled]; exact .filler))
  | @moveRest room next supply line rest name _ place _ _ =>
      rw [place] at strips
      cases strips
      rw [← List.append_nil (strip false (line :: rest))]
      exact .call ⟨_, line :: rest⟩ .nil
  | @moveBody position room next supply line rest name fitted _ place _ plain _ _ ih =>
      have split : line :: rest =
          (line :: rest.takeWhile staysInBody) ++ rest.dropWhile staysInBody := by
        rw [List.cons_append, List.takeWhile_append_dropWhile]
      rw [split, strip_plain_append plain source false]
      show Splices _ (strip written (callLine _ :: _)) _
      rw [strip_kept rfl rfl rfl]
      exact .call _ (ih strips)
  | @markRest after room next supply line rest fitted _ place behind stands' stepped verdict course
      ih =>
      rw [place] at strips
      cases strips
      show Splices _ (strip _ (placeholderLine _ :: _)) _
      rw [strip_mark (isMark_placeholderLine _)]
      -- Only a change and a line that opens a conditional can be marked.
      rcases change_or_opens verdict nofun with ⟨kind, tag, -⟩ | ⟨opens, -, -⟩
      · have plain := Tag.isPlain_change tag
        obtain rfl := Option.some.inj ((step_plain plain).symm.trans stepped)
        have place := stands'.place_eq_outside behind
        exact splices_plain plain (ih (place ▸ .outside))
      · obtain ⟨-, rfl⟩ := step_opens opens stepped
        have inside : next.place = .conditional := stands'.mpr nofun
        exact splices_opens opens (course.bodyEnd.1 inside)
          fun inFiller => ih (inside ▸ .conditional inFiller)
  | markBody _ place behind _ plain _ _ ih =>
      rw [place] at strips
      cases strips
      show Splices _ (strip _ (placeholderLine _ :: _)) _
      rw [strip_mark (isMark_placeholderLine _)]
      exact splices_plain plain (ih (behind ▸ .conditional _))

end StatScript.Fitting
