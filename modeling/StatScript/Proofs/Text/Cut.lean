import StatScript.Proofs.Text.Words
import StatScript.Text.Cut

/-!
# What the cuts find

A text put together from a beginning, an inner part and an ending is cut into these parts again, also by
their byte offsets, and a text with a character of its own at either end is left as it is by trimming.
-/

namespace StatScript.Text

/-! ## Beginnings and endings -/

@[simp]
theorem after?_append (lead rest : List Char) : after? lead (lead ++ rest) = some rest := by
  induction lead with
  | nil => rfl
  | cons c lead ih => rw [List.cons_append, after?, if_pos rfl, ih]

theorem eq_append_of_after? {lead text rest : List Char} (found : after? lead text = some rest) :
    text = lead ++ rest := by
  induction lead generalizing text with
  | nil => exact Option.some.inj found
  | cons c lead ih =>
      cases text with
      | nil => cases found
      | cons d text =>
          rw [after?] at found
          split at found
          · next same => rw [ih found, same, List.cons_append]
          · cases found

@[simp]
theorem before?_append (inner tail : List Char) : before? tail (inner ++ tail) = some inner := by
  simp [before?]

@[simp]
theorem behind?_append (lead rest : String) : behind? lead (lead ++ rest) = some rest := by
  simp [behind?]

@[simp]
theorem beginsWith_append (lead rest : String) : beginsWith lead (lead ++ rest) = true := by
  simp [beginsWith]

@[simp]
theorem between?_append (lead inner tail : String) :
    between? lead tail (lead ++ inner ++ tail) = some inner := by
  simp [between?, String.append_assoc]

/-! ## Marks -/

theorem cutFirst?_append {mark : Char} {left : List Char} (free : mark ∉ left) (right : List Char) :
    cutFirst? mark (left ++ mark :: right) = some (left, right) := by
  induction left with
  | nil => simp [cutFirst?]
  | cons c left ih =>
      rw [List.mem_cons, not_or] at free
      rw [List.cons_append, cutFirst?, if_neg (Ne.symm free.1), ih free.2]
      rfl

theorem cutLast?_append {mark : Char} (left : List Char) {right : List Char} (free : mark ∉ right) :
    cutLast? mark (left ++ mark :: right) = some (left, right) := by
  have reversed : (left ++ mark :: right).reverse = right.reverse ++ mark :: left.reverse := by
    simp
  rw [cutLast?, reversed, cutFirst?_append (by simpa using free)]
  simp

theorem listItems_cons {c : Char} (other : c ≠ ',') (cs : List Char) :
    listItems (c :: cs) = consField c (listItems cs) := by
  rw [listItems]
  rintro tail rfl
  exact absurd rfl other

theorem listItems_single {item : List Char} (free : ',' ∉ item) : listItems item = [item] := by
  induction item with
  | nil => rfl
  | cons c item ih =>
      rw [List.mem_cons, not_or] at free
      rw [listItems_cons (Ne.symm free.1), ih free.2]
      rfl

theorem listItems_append {item : List Char} (free : ',' ∉ item) (more : List Char) :
    listItems (item ++ ',' :: ' ' :: more) = item :: listItems more := by
  induction item with
  | nil => rfl
  | cons c item ih =>
      rw [List.mem_cons, not_or] at free
      rw [List.cons_append, listItems_cons (Ne.symm free.1), ih free.2]
      rfl

/-- Items without commas are the items of the list that they make up. -/
theorem listItems_intercalate {items : List String} (nonempty : items ≠ [])
    (free : ∀ item ∈ items, ',' ∉ item.toList) :
    (listItems (", ".intercalate items).toList).map String.ofList = items := by
  induction items with
  | nil => exact absurd rfl nonempty
  | cons item rest ih =>
      obtain ⟨first, others⟩ := List.forall_mem_cons.mp free
      cases rest with
      | nil =>
          rw [String.intercalate_singleton, listItems_single first]
          simp
      | cons next rest =>
          have comma (more : List Char) : ", ".toList ++ more = ',' :: ' ' :: more := rfl
          rw [String.intercalate_cons_cons, String.append_assoc, String.toList_append,
            String.toList_append, comma, listItems_append first, List.map_cons, ih nofun others,
            String.ofList_toList]

/-! ## Byte offsets -/

theorem utf8ByteSize_ofList_cons (c : Char) (cs : List Char) :
    (String.ofList (c :: cs)).utf8ByteSize = c.utf8Size + (String.ofList cs).utf8ByteSize := by
  rw [String.ofList_cons, String.utf8ByteSize_append, String.utf8ByteSize_singleton]

/-- A cut at a byte offset leaves as many bytes before it. -/
theorem cutAt?_eq_some_iff {offset : Nat} {cs left right : List Char} :
    cutAt? offset cs = some (left, right) ↔
      cs = left ++ right ∧ (String.ofList left).utf8ByteSize = offset := by
  fun_induction cutAt? offset cs generalizing left with
  | case1 cs =>
      rw [String.utf8ByteSize_eq_zero_iff, String.ofList_eq_empty_iff, Option.some.injEq, Prod.mk.injEq]
      constructor
      · rintro ⟨rfl, rfl⟩
        exact ⟨rfl, rfl⟩
      · rintro ⟨rfl, rfl⟩
        exact ⟨rfl, rfl⟩
  | case2 offset =>
      refine iff_of_false nofun ?_
      rintro ⟨empty, size⟩
      rw [(List.append_eq_nil_iff.mp empty.symm).1] at size
      cases size
  | case3 offset c cs fits ih =>
      simp only [Option.map_eq_some_iff, Prod.exists, Prod.mk.injEq]
      constructor
      · rintro ⟨left, right, found, rfl, rfl⟩
        obtain ⟨rfl, size⟩ := ih.mp found
        rw [utf8ByteSize_ofList_cons, size, Nat.add_sub_cancel' fits]
        exact ⟨rfl, rfl⟩
      · rintro ⟨whole, size⟩
        cases left with
        | nil => cases size
        | cons d left =>
            obtain ⟨rfl, rfl⟩ := List.cons.inj whole
            rw [utf8ByteSize_ofList_cons] at size
            exact ⟨left, right, ih.mpr ⟨rfl, by omega⟩, rfl, rfl⟩
  | case4 offset c cs narrow =>
      refine iff_of_false nofun ?_
      rintro ⟨whole, size⟩
      cases left with
      | nil => cases size
      | cons d left =>
          obtain ⟨rfl, rfl⟩ := List.cons.inj whole
          rw [utf8ByteSize_ofList_cons] at size
          omega

/-- A part is found between two byte offsets iff so many bytes stand before it and up to its end. Inside
characters there is none. -/
theorem slice?_eq_some_iff {text part : String} {start stop : Nat} :
    slice? text start stop = some part ↔ ∃ before behind, text = before ++ part ++ behind ∧
      before.utf8ByteSize = start ∧ (before ++ part).utf8ByteSize = stop := by
  simp only [slice?, Option.bind_eq_bind, Option.bind_eq_some_iff, Prod.exists, cutAt?_eq_some_iff]
  constructor
  · rintro ⟨left, behind, ⟨text_eq, stops⟩, before, inner, ⟨rfl, starts⟩, part_eq⟩
    obtain rfl := Option.some.inj part_eq
    refine ⟨String.ofList before, String.ofList behind, ?_, starts, ?_⟩
    · rw [← String.ofList_append, ← String.ofList_append, ← text_eq, String.ofList_toList]
    · rw [← String.ofList_append, stops]
  · rintro ⟨before, behind, rfl, starts, stops⟩
    refine ⟨(before ++ part).toList, behind.toList, ⟨String.toList_append, ?_⟩, before.toList, part.toList,
      ⟨String.toList_append, ?_⟩, congrArg some String.ofList_toList⟩
    · rwa [String.ofList_toList]
    · rwa [String.ofList_toList]

/-! ## Trimming -/

theorem dropWhile_eq_self {p : Char → Bool} {cs : List Char}
    (head : ∀ c ∈ cs.head?, p c = false) : cs.dropWhile p = cs := by
  cases cs with
  | nil => rfl
  | cons c cs => exact List.dropWhile_cons_of_neg (by simp [head c rfl])

theorem dropEnds_eq_self {p : Char → Bool} {cs : List Char}
    (first : ∀ c ∈ cs.head?, p c = false) (last : ∀ c ∈ cs.getLast?, p c = false) :
    dropEnds p cs = cs := by
  rw [dropEnds, dropStart, dropWhile_eq_self first, dropEnd,
    dropWhile_eq_self (by rwa [List.head?_reverse]), List.reverse_reverse]

/-- One character of the class at either end is dropped. -/
theorem dropEnds_between {p : Char → Bool} {c d : Char} {cs : List Char} (left : p c)
    (right : p d) (nonempty : cs ≠ []) (first : ∀ c ∈ cs.head?, p c = false)
    (last : ∀ c ∈ cs.getLast?, p c = false) : dropEnds p (c :: cs ++ [d]) = cs := by
  have start : (cs ++ [d]).head? = cs.head? := by
    rw [List.head?_append, Option.or_of_isSome]
    simpa [List.isSome_head?] using nonempty
  rw [dropEnds, dropStart, List.cons_append, List.dropWhile_cons_of_pos left,
    dropWhile_eq_self (by rwa [start]), dropEnd, List.reverse_append, List.reverse_singleton,
    List.singleton_append, List.dropWhile_cons_of_pos right,
    dropWhile_eq_self (by rwa [List.head?_reverse]), List.reverse_reverse]

theorem trim_eq_self {text : String} (edged : Edged text) :
    dropEnds isBlank text.toList = text.toList := by
  obtain ⟨⟨c, head, first⟩, d, tail, last⟩ := edged
  refine dropEnds_eq_self ?_ ?_
  · rw [head]
    rintro e ⟨⟩
    exact first
  · rw [tail]
    rintro e ⟨⟩
    exact last

/-- The first word of a text begins like the trimmed text. -/
theorem words_of_trim {text : String} {c : Char} (head : (trim text).toList.head? = some c)
    (solid : isBlank c = false) :
    ∃ word further, words text = String.ofList (c :: word) :: further := by
  have start : (dropStart isBlank text.toList).head? = some c := by
    have shorter : dropEnd isBlank (dropStart isBlank text.toList) <+: dropStart isBlank text.toList := by
      rw [← List.reverse_suffix, dropEnd, List.reverse_reverse]
      exact List.dropWhile_suffix _
    rw [trim, String.toList_ofList, dropEnds] at head
    obtain ⟨tail, trimmed⟩ := List.head?_eq_some_iff.mp head
    obtain ⟨rest, same⟩ := shorter
    rw [← same, trimmed]
    rfl
  obtain ⟨rest, text_eq⟩ := List.head?_eq_some_iff.mp start
  obtain ⟨word, further, runs_eq⟩ := wordRuns_cons solid rest
  refine ⟨word, further.map String.ofList, ?_⟩
  rw [words, ← wordRuns_dropWhile, ← dropStart, text_eq, runs_eq, List.map_cons]

end StatScript.Text
