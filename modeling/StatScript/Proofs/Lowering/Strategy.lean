import StatScript.Proofs.Lowering.Decomposition
import StatScript.Proofs.Lowering.Stepwise

/-!
# The shorter of two ways

The shorter way to write a power is found by writing both. What it costs depends on the exponent alone: base
and surroundings only fill a sketch of the code, in which the temps are counted from the start of the code. So
the way that is taken out leaves nothing behind but its temps.

Results:
1. `PowerCode.sketched`: code that has a derivation is a sketch, filled in.
2. `powerBy_shorter`: of the two ways the shorter one is kept, and the first if they are as long.
-/

namespace StatScript

/-! ## Sketches -/

/-- A value in a sketch. Temps are counted from the start of the code. -/
inductive Source where
  | base
  | slot (own : Nat)
  | power (own exponent : Nat)

/-- A change in a sketch, of one of the temps of the code. -/
structure Stroke where
  own : Nat
  mode : Mode
  value : Source

/-- The code of a power without its base and its surroundings. -/
structure Sketch where
  strokes : List Stroke
  result : Source
  temps : Nat

/-- A temp of the code of a power. -/
def ownTemp (base : Operand) (temps own : Nat) : Temp :=
  ⟨temps + own, base.type⟩

/-- The operand that a value stands for behind `temps` temps. -/
def Source.operand (base : Operand) (temps : Nat) : Source → Operand
  | .base => base
  | .slot own => .slot (ownTemp base temps own).slot
  | .power own exponent => Emit.result (ownTemp base temps own) (.pow exponent) [base]

/-- The change that a stroke stands for behind `temps` temps. A temp is set once, where it is defined. -/
def Stroke.change (base : Operand) (temps : Nat) (stroke : Stroke) : Change where
  target := (ownTemp base temps stroke.own).slot
  mode := stroke.mode
  value := stroke.value.operand base temps
  defining := stroke.mode == .set

/-- The code that a sketch stands for behind `temps` temps. -/
def Sketch.code (sketch : Sketch) (base : Operand) (temps : Nat) : Code Operand :=
  ⟨sketch.strokes.map (Stroke.change base temps), sketch.result.operand base temps, temps + sketch.temps⟩

/-! ### Renumbering -/

/-- A value behind more temps of the same code. -/
def Source.shift (more : Nat) : Source → Source
  | .base => .base
  | .slot own => .slot (more + own)
  | .power own exponent => .power (more + own) exponent

/-- A stroke behind more temps of the same code. -/
def Stroke.shift (more : Nat) (stroke : Stroke) : Stroke :=
  ⟨more + stroke.own, stroke.mode, stroke.value.shift more⟩

/-- A sketch behind more temps of the same code. -/
def Sketch.shift (more : Nat) (sketch : Sketch) : Sketch :=
  ⟨sketch.strokes.map (Stroke.shift more), sketch.result.shift more, more + sketch.temps⟩

theorem Source.operand_shift (base : Operand) (temps more : Nat) (source : Source) :
    (source.shift more).operand base temps = source.operand base (temps + more) := by
  cases source <;> simp only [shift, operand, ownTemp, Nat.add_assoc]

theorem Stroke.change_shift (base : Operand) (temps more : Nat) (stroke : Stroke) :
    (stroke.shift more).change base temps = stroke.change base (temps + more) := by
  simp only [shift, change, ownTemp, Source.operand_shift, Nat.add_assoc]

theorem Sketch.code_shift (base : Operand) (temps more : Nat) (sketch : Sketch) :
    (sketch.shift more).code base temps = sketch.code base (temps + more) := by
  have strokes : Stroke.change base temps ∘ Stroke.shift more = Stroke.change base (temps + more) :=
    funext (Stroke.change_shift base temps more)
  simp only [code, shift, List.map_map, strokes, Source.operand_shift, Nat.add_assoc]

/-! ### Ways to write a power -/

namespace Sketch

/-- The first temp is set to the base and squared. -/
def raising (squarings : Nat) : List Stroke :=
  ⟨1, .set, .base⟩ :: List.replicate squarings ⟨1, .combine .mul, .slot 1⟩

/-- A part is combined into the first temp. -/
def stage (op : BasicOp) (part : Sketch) : List Stroke :=
  part.strokes ++ [⟨1, .combine op, part.result⟩]

def squared (n squarings : Nat) : Sketch :=
  ⟨raising squarings, .power 1 n, 1⟩

def joined (n squarings : Nat) (op : BasicOp) (part : Sketch) : Sketch :=
  ⟨raising squarings ++ stage op (part.shift 1), .power 1 n, (part.shift 1).temps⟩

def dividedTwice (n squarings : Nat) : Sketch :=
  ⟨raising squarings ++ [⟨1, .combine .div, .base⟩, ⟨1, .combine .div, .base⟩], .power 1 n, 1⟩

def shorter (first second : Sketch) : Sketch :=
  if first.strokes.length ≤ 1 then first
  else if second.strokes.length < first.strokes.length then second.shift first.temps
  else { first with temps := first.temps + second.temps }

variable (base : Operand) (temps : Nat)

theorem length_changes (sketch : Sketch) :
    (sketch.code base temps).changes.length = sketch.strokes.length :=
  List.length_map _

theorem map_raising (squarings : Nat) :
    (raising squarings).map (Stroke.change base temps) =
      StatScript.raising base (ownTemp base temps 1) squarings := by
  rw [raising, List.map_cons, List.map_replicate]
  rfl

theorem map_stage (op : BasicOp) (part : Sketch) :
    (stage op part).map (Stroke.change base temps) =
      StatScript.stage (ownTemp base temps 1) op (part.code base temps) := by
  rw [stage, List.map_append]
  rfl

theorem squared_eq_code (n squarings : Nat) :
    Emit.squared base n squarings temps = (squared n squarings).code base temps := by
  rw [code, squared, map_raising]
  rfl

theorem joined_eq_code {part : Sketch} {emit : Emit Operand}
    (filled : emit (temps + 1) = part.code base (temps + 1)) (n squarings : Nat) (op : BasicOp) :
    Emit.joined base n squarings op emit temps = (joined n squarings op part).code base temps := by
  have shifted : (part.shift 1).code base temps = emit (temps + 1) := by
    rw [code_shift, filled]
  rw [code, joined, List.map_append, map_raising, map_stage, shifted, Emit.joined, ← shifted]
  rfl

theorem dividedTwice_eq_code (n squarings : Nat) :
    Emit.dividedTwice base n squarings temps = (dividedTwice n squarings).code base temps := by
  rw [code, dividedTwice, List.map_append, map_raising]
  rfl

/-- What is compared are the lengths of the sketches. -/
theorem shorter_eq_code {first second : Sketch} {emit emit' : Emit Operand}
    (filled : emit temps = first.code base temps) (filled' : ∀ temps, emit' temps = second.code base temps) :
    Emit.shorter emit emit' temps = (shorter first second).code base temps := by
  simp only [Emit.shorter, filled, filled', length_changes, shorter]
  split
  · rfl
  split
  · rw [code_shift]
    rfl
  · simp only [code, Nat.add_assoc]

end Sketch

/-- Code that has a derivation is a sketch, filled in. -/
theorem PowerCode.sketched {n : Nat} {emit : Operand → Emit Operand} (code : PowerCode n emit) :
    ∃ sketch : Sketch, ∀ base temps, emit base temps = sketch.code base temps := by
  induction code with
  | base => exact ⟨⟨[], .base, 0⟩, fun _ _ => rfl⟩
  | @square n k _ => exact ⟨.squared n k, fun base temps => Sketch.squared_eq_code base temps n k⟩
  | @multiply n _ k _ _ _ ih =>
      obtain ⟨part, filled⟩ := ih
      exact ⟨.joined n k .mul part, fun base temps => Sketch.joined_eq_code base temps (filled base _) n k _⟩
  | @divide n _ k _ _ _ ih =>
      obtain ⟨part, filled⟩ := ih
      exact ⟨.joined n k .div part, fun base temps => Sketch.joined_eq_code base temps (filled base _) n k _⟩
  | @divideTwice n k _ =>
      exact ⟨.dividedTwice n k, fun base temps => Sketch.dividedTwice_eq_code base temps n k⟩
  | shorter _ _ ih ih' =>
      obtain ⟨first, filled⟩ := ih
      obtain ⟨second, filled'⟩ := ih'
      exact ⟨.shorter first second,
        fun base temps => Sketch.shorter_eq_code base temps (filled base temps) (filled' base)⟩

/-! ## Writing both -/

section Writing

variable (base : Operand) {n : Nat} (page : Page)

theorem powerBy_shorter_eq (positive : n ≠ 0) :
    Emit.powerBy .shorter base n =
      Emit.shorter (Emit.powerBy .multiply base n) (Emit.powerBy .divide base n) := by
  simp only [Emit.powerBy, if_neg positive, Emit.power]

/-- Dividing takes a change at least. -/
theorem length_powerBy_divide (positive : n ≠ 0) (temps : Nat) :
    1 ≤ (Emit.powerBy .divide base n temps).changes.length := by
  simp only [Emit.powerBy, if_neg positive]
  by_cases excess : Emit.excessOf n = 2
  · rw [Emit.powerByDivide_twice excess]
    exact Nat.succ_le_succ (Nat.zero_le _)
  · rw [Emit.powerByDivide_excess excess]
    exact Nat.succ_le_succ (Nat.zero_le _)

/-- Of two ways that are as long behind all temps, the shorter one is kept. -/
theorem shorter_cases {first second : Emit Operand} {temps : Nat}
    (even : (second (first temps).temps).changes.length = (second temps).changes.length)
    (taken : 1 ≤ (second temps).changes.length) :
    ((first temps).changes.length ≤ (second temps).changes.length ∧
        (Emit.shorter first second temps).changes = (first temps).changes ∧
        (Emit.shorter first second temps).result = (first temps).result) ∨
      ((second temps).changes.length < (first temps).changes.length ∧
        Emit.shorter first second temps = second (first temps).temps) := by
  simp only [Emit.shorter, even]
  split
  · next single => exact .inl ⟨Nat.le_trans single taken, rfl, rfl⟩
  split
  · next less => exact .inr ⟨less, rfl⟩
  · next less => exact .inl ⟨Nat.le_of_not_lt less, rfl, rfl⟩

/-- By every plan, a power is written line by line as it is written at once. Left to choose, it is written the
shorter way, and by multiplying if both are as long. What is written is then as if it had been written that way
from the start, but for the temps of the other way, and stands behind all lines that were there. -/
theorem powerBy_shorter (n : Nat) :
    (∀ plan, ∃ result context listing,
      page.context.write page.listing (Emit.powerBy plan base n) = (result, context, listing) ∧
        Stepwise.powerBy plan base n page = (.ok result, ⟨context, listing⟩)) ∧
    ∃ result result' result'' multiplied divided chosen,
      Stepwise.powerBy .multiply base n page = (.ok result, multiplied) ∧
      Stepwise.powerBy .divide base n page = (.ok result', divided) ∧
      Stepwise.powerBy .shorter base n page = (.ok result'', chosen) ∧
      (∃ lines, chosen.listing = page.listing.extend lines) ∧
      chosen.listing.size = min multiplied.listing.size divided.listing.size ∧
      (multiplied.listing.size ≤ divided.listing.size →
        chosen.listing = multiplied.listing ∧ result'' = result) ∧
      (divided.listing.size < multiplied.listing.size →
        Stepwise.powerBy .divide base n ⟨multiplied.context, page.listing⟩ = (.ok result'', chosen) ∧
        ∃ sketch : Sketch,
          divided = page.append (sketch.code base page.context.temps) ∧
          result' = (sketch.code base page.context.temps).result ∧
          chosen = page.append (sketch.code base multiplied.context.temps) ∧
          result'' = (sketch.code base multiplied.context.temps).result) := by
  have written (plan : PowerPlan) (page : Page) := (Stepwise.writes_powerBy plan base n page).1
  refine ⟨fun plan => ⟨_, _, _, rfl, written plan page⟩, _, _, _, _, _, _, written .multiply page,
    written .divide page, written .shorter page, ⟨_, rfl⟩, ?_⟩
  simp only [Page.size_append]
  rcases eq_or_ne n 0 with rfl | positive
  · -- The power zero takes no code, whichever way it is written.
    exact ⟨(Nat.min_self _).symm, fun _ => ⟨rfl, rfl⟩, fun less => absurd less (Nat.lt_irrefl _)⟩
  obtain ⟨sketch, filled⟩ := (powerCode_powerBy .divide positive).sketched
  have even (temps temps' : Nat) : (Emit.powerBy .divide base n temps).changes.length =
      (Emit.powerBy .divide base n temps').changes.length := by
    rw [filled, filled, Sketch.length_changes, Sketch.length_changes]
  have taken := length_powerBy_divide base positive page.context.temps
  rw [powerBy_shorter_eq base positive]
  rcases shorter_cases (even _ _) taken with ⟨le, changes, result⟩ | ⟨less, kept⟩
  · rw [changes, result, min_eq_left (Nat.add_le_add_left le _)]
    refine ⟨rfl, fun _ => ⟨?_, rfl⟩, fun less => absurd less ?_⟩
    · simp only [Page.append, changes]
    · exact Nat.not_lt.mpr (Nat.add_le_add_left le _)
  · rw [kept, even _ page.context.temps, min_eq_right (Nat.add_le_add_left (Nat.le_of_lt less) _)]
    refine ⟨rfl, fun le => absurd le ?_, fun _ => ⟨written .divide _, sketch, ?_⟩⟩
    · exact Nat.not_le.mpr (Nat.add_lt_add_left less _)
    · rw [← filled, ← filled]
      exact ⟨rfl, rfl, rfl, rfl⟩

end Writing

end StatScript
