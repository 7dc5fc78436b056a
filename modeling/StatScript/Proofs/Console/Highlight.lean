import Mathlib.Data.List.Basic
import StatScript.Console.Highlight
import StatScript.Proofs.Text.Cut

/-!
# What highlighting finds

The words of a line are its maximal runs of characters other than blanks. They are found while the line is
read once, and cut out of it by their byte offsets.

Results:
1. `finds_wordsFrom?`: every cut falls between two characters, and the words found lie in the line with gaps
   of blanks around them.
2. `Layout.mem_iff`, `Layout.pairwise`: so they are the maximal runs, in order.
3. `Layout.covers`: and the segments that are cut at them make up the line.
4. `highlight_covers`: what follows for a whole line.
-/

namespace StatScript.Console

open Text (isBlank Solid)

/-! ## Words -/

/-- A maximal run of characters other than blanks: it is not empty, and on both sides are blanks or the ends of
the text. -/
structure Enclosed (before run behind : List Char) : Prop where
  nonempty : run ≠ []
  solid : ∀ c ∈ run, isBlank c = false
  opened : ∀ c ∈ before.getLast?, isBlank c
  ended : ∀ c ∈ behind.head?, isBlank c

/-- A word of a line, that is a maximal run, which starts at a byte offset. -/
def IsWordAt (line : String) (start : Nat) (word : String) : Prop :=
  ∃ before behind, line = before ++ word ++ behind ∧ before.utf8ByteSize = start ∧
    Enclosed before.toList word.toList behind.toList

/-- How words lie in a text that starts at a byte offset: gaps of blanks are around them, of which the first
and the last may be empty. -/
inductive Layout : Nat → String → List (Nat × String) → Prop
  | gap {offset : Nat} {blanks : String} : (∀ c ∈ blanks.toList, isBlank c) → Layout offset blanks []
  | word {offset : Nat} {blanks word rest : String} {words : List (Nat × String)} :
      (∀ c ∈ blanks.toList, isBlank c) → Solid word → (∀ c ∈ rest.toList.head?, isBlank c) →
      Layout (offset + blanks.utf8ByteSize + word.utf8ByteSize) rest words →
      Layout offset (blanks ++ word ++ rest) ((offset + blanks.utf8ByteSize, word) :: words)

section Layouts

variable {offset start stop : Nat} {line text word : String} {words : List (Nat × String)} {c : Char}
  {found : Option (List (Nat × String))}

/-- A blank in front of a text belongs to its first gap. -/
theorem Layout.blank (layout : Layout (offset + c.utf8Size) text words) (blank : isBlank c) :
    Layout offset (String.singleton c ++ text) words := by
  have gap {blanks : String} (all : ∀ d ∈ blanks.toList, isBlank d) :
      ∀ d ∈ (String.singleton c ++ blanks).toList, isBlank d := by
    rw [String.toList_append, String.toList_singleton]
    exact List.forall_mem_cons.mpr ⟨blank, all⟩
  cases layout with
  | gap all => exact .gap (gap all)
  | @word _ blanks word rest words all solid ended further =>
      have size : offset + (String.singleton c ++ blanks).utf8ByteSize =
          offset + c.utf8Size + blanks.utf8ByteSize := by
        rw [String.utf8ByteSize_append, String.utf8ByteSize_singleton, Nat.add_assoc]
      rw [← size] at further ⊢
      rw [← String.append_assoc, ← String.append_assoc]
      exact .word (gap all) solid ended further

/-- A word up to the end or up to a blank, in front of a text. -/
theorem Layout.behind (solid : Solid word) (ended : ∀ c ∈ text.toList.head?, isBlank c)
    (layout : Layout (start + word.utf8ByteSize) text words) :
    Layout start (word ++ text) ((start, word) :: words) := by
  have whole : Layout start ("" ++ word ++ text) ((start + "".utf8ByteSize, word) :: words) :=
    .word (by simp) solid ended (by simpa using layout)
  simpa using whole

/-! ## Reading a line -/

/-- Words are found, and they lie in the text that starts at the offset. -/
def Finds (found : Option (List (Nat × String))) (offset : Nat) (text : String) : Prop :=
  ∃ words, found = some words ∧ Layout offset text words

theorem Finds.blank (finds : Finds found (offset + c.utf8Size) text) (blank : isBlank c) :
    Finds found offset (String.singleton c ++ text) := by
  obtain ⟨words, found, layout⟩ := finds
  exact ⟨words, found, layout.blank blank⟩

theorem Finds.behind (cut : Text.slice? line start stop = some word) (solid : Solid word)
    (ended : ∀ c ∈ text.toList.head?, isBlank c) (finds : Finds found stop text) :
    Finds (do
      let word ← Text.slice? line start stop
      let behind ← found
      return (start, word) :: behind) start (word ++ text) := by
  obtain ⟨words, rfl, layout⟩ := finds
  refine ⟨(start, word) :: words, by rw [cut]; rfl, .behind solid ended ?_⟩
  obtain ⟨before, behind, -, rfl, rfl⟩ := Text.slice?_eq_some_iff.mp cut
  rwa [← String.utf8ByteSize_append]

theorem solid_singleton (solid : isBlank c = false) : Solid (String.singleton c) :=
  ⟨by simp, by simpa using solid⟩

/-- No cut fails. The words found lie in the text that is still to be read, and if a word has begun before it,
in the text from its start on. -/
theorem finds_wordsFrom? (line : String) (cs : List Char) :
    (∀ before, line = before ++ String.ofList cs →
      Finds (wordsFrom? line before.utf8ByteSize none cs) before.utf8ByteSize (String.ofList cs)) ∧
    ∀ before word, line = before ++ word ++ String.ofList cs → Solid word →
      Finds (wordsFrom? line (before ++ word).utf8ByteSize (some before.utf8ByteSize) cs)
        before.utf8ByteSize (word ++ String.ofList cs) := by
  induction cs with
  | nil =>
      refine ⟨fun before _ => ⟨[], rfl, .gap (by simp)⟩, fun before word line_eq solid => ?_⟩
      have cut : Text.slice? line before.utf8ByteSize line.utf8ByteSize = some word :=
        Text.slice?_eq_some_iff.mpr ⟨before, "", line_eq, rfl, by rw [line_eq]; simp⟩
      exact .behind cut solid (by simp) ⟨[], rfl, .gap (by simp)⟩
  | cons c cs ih =>
      rw [String.ofList_cons]
      have passed (before : String) : (before ++ String.singleton c).utf8ByteSize =
          before.utf8ByteSize + c.utf8Size := by
        rw [String.utf8ByteSize_append, String.utf8ByteSize_singleton]
      have regroup (before : String) : before ++ (String.singleton c ++ String.ofList cs) =
          before ++ String.singleton c ++ String.ofList cs := String.append_assoc.symm
      constructor
      · -- No word has begun: a blank belongs to the gap, and any other character begins a word.
        intro before line_eq
        rw [regroup] at line_eq
        cases blank : isBlank c with
        | true =>
            have finds := ih.1 (before ++ String.singleton c) line_eq
            rw [passed] at finds
            simp only [wordsFrom?, blank]
            exact finds.blank blank
        | false =>
            have finds := ih.2 before (String.singleton c) line_eq (solid_singleton blank)
            rw [passed] at finds
            simp only [wordsFrom?, blank]
            exact finds
      · -- A word has begun: a blank ends it, and any other character makes it longer.
        intro before word line_eq solid
        cases blank : isBlank c with
        | true =>
            have cut : Text.slice? line before.utf8ByteSize (before ++ word).utf8ByteSize = some word :=
              Text.slice?_eq_some_iff.mpr ⟨before, _, line_eq, rfl, rfl⟩
            have ended : ∀ d ∈ (String.singleton c ++ String.ofList cs).toList.head?, isBlank d := by
              rw [String.toList_append, String.toList_singleton]
              rintro d ⟨⟩
              exact blank
            rw [regroup] at line_eq
            have finds := ih.1 (before ++ word ++ String.singleton c) line_eq
            rw [passed] at finds
            simp only [wordsFrom?, blank]
            exact .behind cut solid ended (finds.blank blank)
        | false =>
            have longer : line = before ++ (word ++ String.singleton c) ++ String.ofList cs := by
              rw [line_eq, regroup, ← String.append_assoc]
            have finds :=
              ih.2 before (word ++ String.singleton c) longer (solid.append (solid_singleton blank))
            rw [← String.append_assoc, passed] at finds
            rw [regroup]
            simp only [wordsFrom?, blank]
            exact finds

/-! ## Maximal runs -/

/-- A run and what ends it: the run is all that stands before the first blank. -/
theorem takeWhile_run {run rest : List Char} (solid : ∀ c ∈ run, isBlank c = false)
    (ended : ∀ c ∈ rest.head?, isBlank c) : (run ++ rest).takeWhile (fun c => !isBlank c) = run := by
  rw [List.takeWhile_append_of_pos (by simpa using solid)]
  cases rest with
  | nil => rw [List.takeWhile_nil, List.append_nil]
  | cons c rest => rw [List.takeWhile_cons_of_neg (by simpa using ended c rfl), List.append_nil]

/-- No run begins with a blank. -/
theorem Enclosed.head {before run behind : List Char} (enclosed : Enclosed before run behind) :
    ∃ c rest, run = c :: rest ∧ isBlank c = false := by
  obtain ⟨c, rest, rfl⟩ := List.exists_cons_of_ne_nil enclosed.nonempty
  exact ⟨c, rest, rfl, enclosed.solid c List.mem_cons_self⟩

/-- A maximal run is the first word behind the blanks, or it lies behind that word. -/
theorem enclosed_cases {blanks word rest before run behind : List Char} (first : Enclosed blanks word rest)
    (other : Enclosed before run behind) (blank : ∀ c ∈ blanks, isBlank c)
    (same : blanks ++ word ++ rest = before ++ run ++ behind) :
    (before = blanks ∧ run = word) ∨
      ∃ between, before = blanks ++ word ++ between ∧ rest = between ++ run ++ behind := by
  induction blanks generalizing before with
  | nil =>
      rw [List.nil_append, List.append_assoc, List.append_eq_append_iff] at same
      rcases same with ⟨between, before_eq, rest_eq⟩ | ⟨inner, word_eq, run_eq⟩
      · exact .inr ⟨between, before_eq, by rw [rest_eq, List.append_assoc]⟩
      · -- The last character before the run would be one of the word.
        have start : before = [] := by
          refine Decidable.byContradiction fun nonempty => ?_
          have listed : before.getLast nonempty ∈ word := by
            rw [word_eq]
            exact List.mem_append_left inner (List.getLast_mem nonempty)
          have blank := other.opened _ (List.getLast?_eq_some_getLast nonempty)
          exact absurd blank (Bool.eq_false_iff.mp (first.solid _ listed))
        rw [start, List.nil_append] at word_eq
        refine .inl ⟨start, ?_⟩
        rw [← takeWhile_run other.solid other.ended, run_eq, ← word_eq, takeWhile_run first.solid first.ended]
  | cons b blanks ih =>
      obtain ⟨blank, blanks_blank⟩ := List.forall_mem_cons.mp blank
      cases before with
      | nil =>
          obtain ⟨c, run, rfl, solid⟩ := other.head
          obtain ⟨rfl, -⟩ := List.cons.inj same
          exact absurd blank (Bool.eq_false_iff.mp solid)
      | cons d before =>
          obtain ⟨rfl, tails⟩ := List.cons.inj same
          have first' : Enclosed blanks word rest :=
            { first with opened := fun c last => blanks_blank c (List.mem_of_getLast? last) }
          have opened : ∀ c ∈ before.getLast?, isBlank c := by
            cases before with
            | nil => exact nofun
            | cons e before => exact other.opened
          rcases ih first' { other with opened } blanks_blank tails with ⟨rfl, rfl⟩ | ⟨between, rfl, rfl⟩
          · exact .inl ⟨rfl, rfl⟩
          · exact .inr ⟨between, rfl, rfl⟩

/-- There is no word where all is blank. -/
theorem not_isWordAt_blanks (blank : ∀ c ∈ text.toList, isBlank c) : ¬ IsWordAt text start word := by
  rintro ⟨before, behind, rfl, -, enclosed⟩
  obtain ⟨c, rest, chars, solid⟩ := enclosed.head
  have listed : c ∈ (before ++ word ++ behind).toList := by simp [chars]
  exact absurd (blank c listed) (Bool.eq_false_iff.mp solid)

/-- Behind a gap and a word the words are that word and those of the rest. -/
theorem isWordAt_append {blanks rest run : String} (blank : ∀ c ∈ blanks.toList, isBlank c)
    (solid : Solid word) (ended : ∀ c ∈ rest.toList.head?, isBlank c) :
    IsWordAt (blanks ++ word ++ rest) start run ↔
      (start = blanks.utf8ByteSize ∧ run = word) ∨
        ∃ further, start = (blanks ++ word).utf8ByteSize + further ∧ IsWordAt rest further run := by
  have first : Enclosed blanks.toList word.toList rest.toList :=
    ⟨by simpa using solid.1, solid.2, fun c last => blank c (List.mem_of_getLast? last), ended⟩
  constructor
  · rintro ⟨before, behind, same, rfl, enclosed⟩
    have chars := congrArg String.toList same
    simp only [String.toList_append] at chars
    rcases enclosed_cases first enclosed blank chars with ⟨start, word_eq⟩ | ⟨between, start, rest_eq⟩
    · rw [String.toList_inj.mp start]
      exact .inl ⟨rfl, String.toList_inj.mp word_eq⟩
    · have start' : before = blanks ++ word ++ String.ofList between := by
        rw [← String.toList_inj, start, String.toList_append, String.toList_append, String.toList_ofList]
      have rest_eq' : rest = String.ofList between ++ run ++ behind := by
        rw [← String.toList_inj, rest_eq, String.toList_append, String.toList_append, String.toList_ofList]
      have opened : ∀ c ∈ between.getLast?, isBlank c := by
        cases between with
        | nil => exact nofun
        | cons c between =>
            have opened := enclosed.opened
            rwa [start, List.getLast?_append_of_ne_nil _ (List.cons_ne_nil c between)] at opened
      refine .inr ⟨_, by rw [start', String.utf8ByteSize_append], _, behind, rest_eq', rfl, ?_⟩
      rw [String.toList_ofList]
      exact { enclosed with opened }
  · rintro (⟨rfl, rfl⟩ | ⟨further, rfl, before, behind, rfl, rfl, enclosed⟩)
    · exact ⟨blanks, rest, rfl, rfl, first⟩
    · refine ⟨blanks ++ word ++ before, behind, by simp only [String.append_assoc], String.utf8ByteSize_append,
        { enclosed with opened := ?_ }⟩
      -- Something stands between the word and the run, since the word ends at a blank.
      have nonempty : before.toList ≠ [] := by
        intro empty
        obtain ⟨c, rest, chars, solid⟩ := enclosed.head
        have blank := ended c (by rw [String.toList_append, String.toList_append, empty, chars]; rfl)
        exact absurd blank (Bool.eq_false_iff.mp solid)
      rw [String.toList_append, List.getLast?_append_of_ne_nil _ nonempty]
      exact enclosed.opened

/-- The words that lie in a text are all its words. -/
theorem Layout.mem_iff (layout : Layout offset text words) :
    (start, word) ∈ words ↔ ∃ distance, start = offset + distance ∧ IsWordAt text distance word := by
  induction layout with
  | gap blank => exact iff_of_false nofun fun ⟨_, _, found⟩ => not_isWordAt_blanks blank found
  | @word offset blanks first rest words blank solid ended _ ih =>
      simp only [List.mem_cons, Prod.mk.injEq, ih, isWordAt_append blank solid ended,
        String.utf8ByteSize_append]
      constructor
      · rintro (⟨rfl, rfl⟩ | ⟨distance, rfl, found⟩)
        · exact ⟨_, rfl, .inl ⟨rfl, rfl⟩⟩
        · exact ⟨_, by simp only [Nat.add_assoc], .inr ⟨distance, rfl, found⟩⟩
      · rintro ⟨distance, rfl, ⟨rfl, rfl⟩ | ⟨further, rfl, found⟩⟩
        · exact .inl ⟨rfl, rfl⟩
        · exact .inr ⟨further, by simp only [Nat.add_assoc], found⟩

theorem Layout.pairwise (layout : Layout offset text words) :
    words.Pairwise fun first second => first.1 < second.1 := by
  induction layout with
  | gap => exact .nil
  | @word offset blanks word rest words _ solid _ layout ih =>
      refine .cons ?_ ih
      rintro ⟨start, other⟩ member
      obtain ⟨distance, rfl, -⟩ := layout.mem_iff.mp member
      have pos : 0 < word.utf8ByteSize :=
        Nat.pos_of_ne_zero fun none => solid.1 (String.utf8ByteSize_eq_zero_iff.mp none)
      exact Nat.lt_add_right distance (Nat.lt_add_of_pos_right pos)

/-! ## Segments -/

/-- The segments make up the text, and none of them is empty. -/
def Covers (segments : List Segment) (text : String) : Prop :=
  String.join (segments.map Segment.text) = text ∧ "" ∉ segments.map Segment.text

theorem covers_singleton (style : Style) (nonempty : text ≠ "") : Covers [{ style, text }] text :=
  ⟨by simp, by simpa using nonempty.symm⟩

theorem Covers.append {first second : List Segment} {left right : String} (covers : Covers first left)
    (covers' : Covers second right) : Covers (first ++ second) (left ++ right) := by
  refine ⟨?_, ?_⟩
  · rw [List.map_append, String.join_append, covers.1, covers'.1]
  · rw [List.map_append, List.mem_append, not_or]
    exact ⟨covers.2, covers'.2⟩

/-- The cut of a gap does not fail, and its segment is the gap. -/
theorem covers_gap? {before gap behind : String} {stop : Nat} (line_eq : line = before ++ gap ++ behind)
    (stops : (before ++ gap).utf8ByteSize = stop) :
    ∃ segments, gap? line before.utf8ByteSize stop = some segments ∧ Covers segments gap := by
  have cut : Text.slice? line before.utf8ByteSize stop = some gap :=
    Text.slice?_eq_some_iff.mpr ⟨before, behind, line_eq, rfl, stops⟩
  rw [String.utf8ByteSize_append] at stops
  unfold gap?
  split
  · next wide =>
      have size : gap.utf8ByteSize ≠ 0 := by omega
      exact ⟨_, by rw [cut]; rfl, covers_singleton _ fun empty => size (String.utf8ByteSize_eq_zero_iff.mpr empty)⟩
  · next narrow =>
      have empty : gap.utf8ByteSize = 0 := by omega
      rw [String.utf8ByteSize_eq_zero_iff.mp empty]
      exact ⟨[], rfl, rfl, nofun⟩

/-- No cut between words fails, and what is cut makes up the text. -/
theorem Layout.covers (layout : Layout offset text words) (before : String) (line_eq : line = before ++ text)
    (starts : before.utf8ByteSize = offset) :
    ∃ segments, segmentsFrom? line offset words = some segments ∧ Covers segments text := by
  induction layout generalizing before with
  | @gap offset blanks _ =>
      obtain rfl := starts
      have line_eq' : line = before ++ blanks ++ "" := by rw [line_eq, String.append_empty]
      exact covers_gap? line_eq' (by rw [line_eq])
  | @word offset blanks word rest words _ solid _ _ ih =>
      obtain rfl := starts
      have line_eq' : line = before ++ blanks ++ (word ++ rest) := by
        rw [line_eq]
        simp only [String.append_assoc]
      obtain ⟨gap, gap_eq, coversGap⟩ := covers_gap? line_eq' String.utf8ByteSize_append
      obtain ⟨behind, behind_eq, coversBehind⟩ := ih (before ++ blanks ++ word)
        (by rw [line_eq]; simp only [String.append_assoc])
        (by rw [String.utf8ByteSize_append, String.utf8ByteSize_append])
      refine ⟨gap ++ { style := styleOf word, text := word } :: behind, ?_, ?_⟩
      · simp only [segmentsFrom?, gap_eq, behind_eq, Option.bind_eq_bind, Option.bind_some]
        rfl
      · rw [String.append_assoc]
        exact coversGap.append ((covers_singleton _ solid.1).append coversBehind)

end Layouts

/-- Highlighting keeps every character of a line and finds every word: the words found are the maximal runs of
characters other than blanks, in order and each with the byte offset at which it starts; no cut falls inside a
character; and the segments make up the line, none of them empty. -/
theorem highlight_covers (line : String) :
    (∃ words, wordsAt? line = some words ∧ (words.Pairwise fun first second => first.1 < second.1) ∧
      ∀ start word, (start, word) ∈ words ↔ IsWordAt line start word) ∧
    highlight? line = some (highlight line) ∧
    String.join ((highlight line).map Segment.text) = line ∧ "" ∉ (highlight line).map Segment.text := by
  obtain ⟨words, found, layout⟩ : Finds (wordsAt? line) 0 line := by
    have finds := (finds_wordsFrom? line line.toList).1 "" (by simp)
    rw [String.ofList_toList] at finds
    exact finds
  obtain ⟨segments, segments_eq, covers⟩ :
      ∃ segments, highlight? line = some segments ∧ Covers segments line := by
    unfold highlight?
    split
    · next comment =>
        have nonempty : line ≠ "" := by
          rintro rfl
          cases comment
        exact ⟨_, rfl, covers_singleton _ nonempty⟩
    · rw [found]
      exact layout.covers "" (by simp) rfl
  refine ⟨⟨words, found, layout.pairwise, fun start word => ?_⟩, ?_⟩
  · simp only [layout.mem_iff, Nat.zero_add, exists_eq_left']
  · have shown : highlight line = segments := by rw [highlight, segments_eq, Option.getD_some]
    rw [shown]
    exact ⟨segments_eq, covers⟩

example : wordsAt? "p:ä\u3000= 1 " = some [(0, "p:ä"), (7, "="), (9, "1")] := by decide

end StatScript.Console
