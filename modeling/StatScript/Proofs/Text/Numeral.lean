import StatScript.Proofs.Text.Words
import StatScript.Text.Numeral

/-!
# Reading numerals back

Main statement: `long?_repr`, a 64-bit number is read back from its decimal form, which is one word.
-/

namespace StatScript.Text

theorem isBlank_of_isDigit {c : Char} (digit : c.isDigit) : isBlank c = false := by
  have range : 48 ≤ c.toNat ∧ c.toNat ≤ 57 := by
    simpa [Char.isDigit, UInt32.le_iff_toNat_le] using digit
  simp [isBlank, blankRanges]
  omega

theorem isDigit_of_mem_repr {n : Nat} {c : Char} (member : c ∈ n.repr.toList) : c.isDigit := by
  rw [Nat.toList_repr] at member
  exact Nat.isDigit_of_mem_toDigits (by decide) (by decide) member

@[simp]
theorem digits?_repr (n : Nat) : digits? n.repr.toList = some n := by
  have digits : n.repr.toList.all Char.isDigit :=
    List.all_eq_true.mpr fun c member => isDigit_of_mem_repr member
  have nonempty : n.repr.toList ≠ [] := by simp
  rw [digits?, if_pos ⟨nonempty, digits⟩, Nat.toList_repr]
  simp

/-- A numeral without a sign is read as a run of digits. -/
theorem integer?_of_digits {cs : List Char} (digits : ∀ c ∈ cs, c.isDigit) :
    integer? cs = (digits? cs).map Int.ofNat := by
  cases cs with
  | nil => rfl
  | cons c cs =>
      rw [integer?]
      · rintro tail same
        cases same
        exact absurd (digits '+' List.mem_cons_self) (by decide)
      · rintro tail same
        cases same
        exact absurd (digits '-' List.mem_cons_self) (by decide)

@[simp]
theorem integer?_repr (value : Int) : integer? value.repr.toList = some value := by
  cases value with
  | ofNat n =>
      show integer? n.repr.toList = _
      rw [integer?_of_digits fun c => isDigit_of_mem_repr, digits?_repr]
      rfl
  | negSucc n =>
      have text : (Int.negSucc n).repr = "-" ++ (n + 1).repr := rfl
      have minus (cs : List Char) : "-".toList ++ cs = '-' :: cs := rfl
      rw [text, String.toList_append, minus, integer?, digits?_repr]
      rfl

/-- A 64-bit number is read back from its decimal form. -/
@[simp]
theorem long?_repr (value : Int64) : long? value.toInt.repr = some value := by
  have range : Int64.minValue.toInt ≤ value.toInt ∧ value.toInt ≤ Int64.maxValue.toInt :=
    ⟨value.minValue_le_toInt, value.toInt_le⟩
  rw [long?, integer?_repr]
  simp only [Option.bind_eq_bind, Option.bind_some, if_pos range, Int64.ofInt_toInt]

/-- A text that begins with anything but a sign or a digit is no numeral. -/
theorem integer?_eq_none {c : Char} {cs : List Char} (digit : c.isDigit = false) (plus : c ≠ '+')
    (minus : c ≠ '-') : integer? (c :: cs) = none := by
  have digits : digits? (c :: cs) = none := by simp [digits?, digit]
  rw [integer?, digits]
  · rfl
  · rintro tail same
    exact plus (List.cons.inj same).1
  · rintro tail same
    exact minus (List.cons.inj same).1

theorem long?_eq_none {text : String} {c : Char} {cs : List Char} (text_eq : text.toList = c :: cs)
    (digit : c.isDigit = false) (plus : c ≠ '+') (minus : c ≠ '-') : long? text = none := by
  rw [long?, text_eq, integer?_eq_none digit plus minus]
  rfl

/-- A decimal form is one word, made of digits and a sign. -/
theorem repr_chars (value : Int) : ∀ c ∈ value.repr.toList, c.isDigit ∨ c = '-' := by
  cases value with
  | ofNat n => exact fun c member => .inl (isDigit_of_mem_repr (n := n) member)
  | negSucc n =>
      have text : (Int.negSucc n).repr = "-" ++ (n + 1).repr := rfl
      intro c member
      rw [text, String.toList_append] at member
      rcases List.mem_append.mp member with sign | digit
      · exact .inr (List.mem_singleton.mp sign)
      · exact .inl (isDigit_of_mem_repr digit)

theorem solid_repr (value : Int) : Solid value.repr := by
  refine ⟨?_, ?_⟩
  · intro empty
    have read := integer?_repr value
    rw [empty] at read
    cases read
  · intro c member
    rcases repr_chars value c member with digit | rfl
    · exact isBlank_of_isDigit digit
    · rfl

end StatScript.Text
