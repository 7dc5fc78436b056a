import Mathlib
import StatScript.Fitting.Program
import StatScript.Proofs.Fitting.Course
import StatScript.Proofs.Text.Cut
import StatScript.Proofs.Text.Numeral

/-!
# Fresh names

The names of auxiliary containers are handed out one after another, each of them new.

Results:
1. `headerName?_headerLine`, `callLine_inj`, `isPlaceholder_placeholderLine`: the lines that fitting
   writes are read as what they were written for.
2. `Supply.nextName_fresh`: the next name is not taken, and it is taken from then on.
3. `Course.relates`: what a body takes from the supply, name by name and placeholder by placeholder.
4. `Course.fresh`: the names of the lines moved out of a body are fresh and pairwise different.
-/

namespace StatScript.Fitting

/-! ## Names in lines -/

/-- A header gives back its name. -/
theorem headerName?_headerLine {name : String} (nonempty : name ≠ "") :
    headerName? (headerLine name) = some name := by
  have lead : Text.Edged headerLead := ⟨⟨'g', rfl, rfl⟩, '"', rfl, rfl⟩
  have edged : Text.Edged (headerLead ++ name ++ "\"") :=
    lead.append name (Text.Solid.edged (by decide))
  have trimmed : Text.trim (headerLine name).text = headerLead ++ name ++ "\"" := by
    rw [Text.trim, headerLine, Text.trim_eq_self edged, String.ofList_toList]
  rw [headerName?, trimmed, Text.between?_append]
  exact if_neg nonempty

theorem callLine_inj {first second : String} :
    (callLine first).text = (callLine second).text ↔ first = second := by
  simp only [callLine, String.append_left_inj, String.append_right_inj]

@[simp]
theorem placeholderLine_text (number : Nat) :
    (placeholderLine number).text = placeholderLead ++ (number.repr ++ "\"") := by
  simp only [placeholderLine, placeholderName, placeholderLead, ← String.append_assoc]
  rfl

@[simp]
theorem isPlaceholder_placeholderLine (number : Nat) : isPlaceholder (placeholderLine number) := by
  simp [isPlaceholder, show (placeholderLine number).tag = .comment from rfl]

@[simp]
theorem isPlaceholder_trailingLine (number : Nat) : isPlaceholder (trailingLine number) = false := by
  have text : (trailingLine number).text =
      "// goto function \"" ++ placeholderName number ++ "\"" := rfl
  have other (rest : List Char) :
      Text.after? placeholderLead.toList ("// goto function \"".toList ++ rest) = none := rfl
  rw [isPlaceholder, Text.beginsWith, text, String.append_assoc, String.toList_append, other]
  rfl

theorem auxiliaryName_injective {base : String} {first second : Nat}
    (same : auxiliaryName base first = auxiliaryName base second) : first = second :=
  Nat.repr_injective ((String.append_right_inj _).mp same)

theorem auxiliaryName_ne_empty (base : String) (suffix : Nat) : auxiliaryName base suffix ≠ "" := by
  intro empty
  have length := congrArg String.length empty
  simp [auxiliaryName] at length

/-! ## The supply -/

theorem le_freshSuffix (base : String) (taken : List String) (suffix : Nat) :
    suffix ≤ freshSuffix base taken suffix := by
  fun_induction freshSuffix base taken suffix with
  | case1 taken suffix _ ih => exact Nat.le_of_succ_le ih
  | case2 taken suffix _ => exact Nat.le_refl suffix

theorem freshSuffix_not_mem (base : String) (taken : List String) (suffix : Nat) :
    auxiliaryName base (freshSuffix base taken suffix) ∉ taken := by
  fun_induction freshSuffix base taken suffix with
  | case1 taken suffix _ ih =>
      intro member
      -- The name found is later than the one erased, so erasing did not remove it.
      have later := le_freshSuffix base (taken.erase (auxiliaryName base suffix)) (suffix + 1)
      have other : auxiliaryName base (freshSuffix base (taken.erase (auxiliaryName base suffix))
          (suffix + 1)) ≠ auxiliaryName base suffix :=
        fun same => Nat.ne_of_gt later (auxiliaryName_injective same)
      exact ih ((List.mem_erase_of_ne other).mpr member)
  | case2 taken suffix free => exact free

namespace Supply

/-- `names` are new to the first supply, pairwise different, and all that the second has taken
beside the first. -/
structure Fresh (before : Supply) (names : List String) (behind : Supply) : Prop where
  nodup : names.Nodup
  new : ∀ name ∈ names, name ∉ before.taken
  taken : ∀ name, name ∈ behind.taken ↔ name ∈ names ∨ name ∈ before.taken

theorem Fresh.refl (supply : Supply) : Fresh supply [] supply :=
  ⟨List.nodup_nil, by simp, by simp⟩

theorem Fresh.append {before middle behind : Supply} {first second : List String}
    (left : Fresh before first middle) (right : Fresh middle second behind) :
    Fresh before (first ++ second) behind := by
  refine ⟨List.nodup_append.mpr ⟨left.nodup, right.nodup, ?_⟩, ?_, ?_⟩
  · rintro name member _ member' rfl
    exact right.new name member' ((left.taken name).mpr (.inl member))
  · intro name member
    rcases List.mem_append.mp member with member | member
    · exact left.new name member
    · exact fun old => right.new name member ((left.taken name).mpr (.inr old))
  · intro name
    rw [right.taken, left.taken, List.mem_append]
    constructor
    · rintro (h | h | h)
      · exact .inl (.inr h)
      · exact .inl (.inl h)
      · exact .inr h
    · rintro ((h | h) | h)
      · exact .inr (.inl h)
      · exact .inl h
      · exact .inr (.inr h)

/-- The next name is not taken, and it is taken from then on. -/
theorem nextName_fresh (supply : Supply) (base : String) :
    Fresh supply [(supply.nextName base).1] (supply.nextName base).2 := by
  refine ⟨List.pairwise_singleton _ _, ?_, ?_⟩
  · intro name member
    rw [List.mem_singleton.mp member]
    exact freshSuffix_not_mem base supply.taken supply.nextSuffix
  · intro name
    simp [nextName]

theorem nextPlaceholder_fresh (supply : Supply) : Fresh supply [] supply.nextPlaceholder.2 :=
  ⟨List.nodup_nil, by simp, by simp [nextPlaceholder]⟩

theorem nextName_ne_empty (supply : Supply) (base : String) : (supply.nextName base).1 ≠ "" :=
  auxiliaryName_ne_empty base _

end Supply

open Supply

/-! ## Names of moved lines -/

/-- The names of relocations, in order. -/
def names (relocations : List Relocation) : List String :=
  relocations.map Relocation.name

section Course

variable {limits : Limits} {base : Option String} {position : Position} {room : Room} {supply : Supply}
  {lines : List Line} {fitted : Fitted}

/-- A body takes names from the supply where it is divided in a container with a name, and placeholders where it
is divided in one without. What relates the supplies before and behind each of these relates those before and
behind the body. -/
theorem Course.relates (course : Course limits base position room supply lines fitted)
    (relates : Supply → List String → List Nat → Supply → Prop) (refl : ∀ supply, relates supply [] [] supply)
    (append : ∀ {before middle behind : Supply} {names names' : List String} {numbers numbers' : List Nat},
      relates before names numbers middle → relates middle names' numbers' behind →
      relates before (names ++ names') (numbers ++ numbers') behind)
    (named : ∀ {name}, base = some name → ∀ supply,
      relates supply [(supply.nextName name).1] [] (supply.nextName name).2)
    (unnamed : base = none → ∀ supply,
      relates supply [] [supply.nextPlaceholder.1] supply.nextPlaceholder.2) :
    relates supply (names fitted.moved) fitted.placeholders fitted.supply := by
  induction course with
  | done _ => exact refl _
  | endFiller _ _ ih => exact ih
  | plain _ _ _ _ _ ih => exact ih
  | turn _ _ _ _ _ _ _ _ _ ih => exact ih
  | fill _ _ _ _ _ ih => exact ih
  | moveRest name _ _ _ => exact named name _
  | moveBody name _ _ _ _ _ ih => exact append (named name _) ih
  | markRest none _ _ _ _ _ _ ih => exact append (unnamed none _) ih
  | markBody none _ _ _ _ _ _ ih => exact append (unnamed none _) ih

/-- The names of the lines moved out of a body are fresh and pairwise different. -/
theorem Course.fresh (course : Course limits base position room supply lines fitted) :
    Fresh supply (names fitted.moved) fitted.supply :=
  course.relates (fun before names _ behind => Fresh before names behind) .refl .append
    (fun _ supply => nextName_fresh supply _) fun _ => nextPlaceholder_fresh

/-- Nothing is moved out of a container without a name. -/
theorem Course.moved_eq_nil (course : Course limits none position room supply lines fitted) :
    fitted.moved = [] := by
  have nameless : names fitted.moved = [] :=
    course.relates (fun _ names _ _ => names = []) (fun _ => rfl)
      (fun first second => List.append_eq_nil_iff.mpr ⟨first, second⟩) nofun fun _ _ => rfl
  exact List.map_eq_nil_iff.mp nameless

/-- No placeholders are written into a container with a name. -/
theorem Course.placeholders_eq_nil (course : Course limits base position room supply lines fitted)
    (named : base ≠ none) : fitted.placeholders = [] :=
  course.relates (fun _ _ placeholders _ => placeholders = []) (fun _ => rfl)
    (fun first second => List.append_eq_nil_iff.mpr ⟨first, second⟩) (fun _ _ => rfl)
    fun unnamed => absurd unnamed named

end Course

/-- Some of the lines of a body, well nested by themselves, under a name that is not empty. -/
structure Relocation.Movable (source : List Line) (relocation : Relocation) : Prop where
  name : relocation.name ≠ ""
  nested : Nested .outside relocation.body
  subset : relocation.body ⊆ source

theorem Relocation.Movable.mono {relocation : Relocation} {first second : List Line}
    (movable : relocation.Movable first) (subset : first ⊆ second) : relocation.Movable second :=
  ⟨movable.name, movable.nested, List.Subset.trans movable.subset subset⟩

/-- What is moved out of a body can stand by itself. -/
theorem Course.moved {limits : Limits} {base : Option String} {position : Position} {room : Room}
    {supply : Supply} {lines : List Line} {fitted : Fitted}
    (course : Course limits base position room supply lines fitted) :
    ∀ relocation ∈ fitted.moved, relocation.Movable lines := by
  have later {line : Line} {rest : List Line} {fitted : Fitted}
      (ih : ∀ relocation ∈ fitted.moved, relocation.Movable rest) :
      ∀ relocation ∈ fitted.moved, relocation.Movable (line :: rest) :=
    fun relocation member => (ih relocation member).mono (List.subset_cons_self line rest)
  induction course with
  | done _ => exact nofun
  | endFiller _ _ ih => exact ih
  | plain _ _ _ _ _ ih => exact later ih
  | turn _ _ _ _ _ _ _ _ _ ih => exact later ih
  | fill _ _ _ _ _ ih => exact later ih
  | moveRest _ _ nested _ =>
      intro relocation member
      rw [List.mem_singleton.mp member]
      exact ⟨nextName_ne_empty _ _, nested, List.Subset.refl _⟩
  | @moveBody position room next supply line rest name fitted _ _ _ plain _ _ ih =>
      intro relocation member
      rcases List.mem_cons.mp member with rfl | member
      · refine ⟨nextName_ne_empty _ _, walk_plain plain, ?_⟩
        exact List.cons_subset_cons _ (List.takeWhile_sublist _).subset
      · exact (ih relocation member).mono
          (List.subset_cons_of_subset line (List.dropWhile_sublist _).subset)
  | markRest _ _ _ _ _ _ _ ih => exact later ih
  | markBody _ _ _ _ _ _ _ ih => exact later ih

end StatScript.Fitting
