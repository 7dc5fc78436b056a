import StatScript.Proofs.Lowering.Finiteness

/-!
# Writing step by step

Code is written as a whole, once every check has been made. It can as well be written line by line, with each
check made where an operand is read. Then a power is written at a mark, taken out again, written the other way
and perhaps put back.

Results:
1. `Stepwise.writes_shorter`: what is taken out at a mark and put back is as it was, temps apart.
2. `Stepwise.writes_basic` up to `Stepwise.writes_powerBy`: with operands that pass the checks, the code of each
   operation is written line by line.
-/

namespace StatScript

/-! ## Marks -/

namespace Listing

variable (listing : Listing) (lines : List Line)

@[simp]
theorem size_extend : (listing.extend lines).size = listing.size + lines.length := by
  simp only [size, Listing.lines, extend, List.length_append]
  omega

/-- The mark at the end of a listing, counted in its body. -/
theorem size_sub_length_preamble : listing.size - listing.preamble.length = listing.body.length := by
  simp only [size, Listing.lines, List.length_append]
  omega

@[simp]
theorem truncate_extend : (listing.extend lines).truncate listing.size = listing := by
  simp only [truncate, extend, size_sub_length_preamble, List.take_left]

@[simp]
theorem drain?_extend : (listing.extend lines).drain? listing.size = some (lines, listing) := by
  have whole := listing.truncate_extend lines
  simp only [extend] at whole
  simp only [drain?, extend, size_sub_length_preamble, List.drop_left, List.length_append,
    Nat.le_add_right, if_true, whole]

@[simp]
theorem truncate_size : listing.truncate listing.size = listing := by
  have whole := listing.truncate_extend []
  rwa [extend, List.append_nil] at whole

end Listing

/-! ## Steps -/

/-- A context, and the listing that is written in it. -/
structure Page where
  context : Context
  listing : Listing

/-- A step of writing: its outcome, and the page that it leaves. A step that fails leaves a page as well. -/
def Stepwise (α : Type) : Type :=
  Page → Except LoweringError α × Page

namespace Stepwise

instance : Monad Stepwise where
  pure result := fun page => (.ok result, page)
  bind first next := fun page =>
    match first page with
    | (.ok result, later) => next result later
    | (.error error, later) => (.error error, later)

/-- An outcome that is known without writing. -/
def settle {α : Type} (outcome : Except LoweringError α) : Stepwise α := fun page =>
  (outcome, page)

/-- Appends the line of a change. -/
def put (change : Change) : Stepwise Unit := fun page =>
  (.ok (), { page with listing := page.listing.push change.line })

/-- Changes a slot. -/
def change (target : Slot) (mode : Mode) (value : Operand) : Stepwise Unit :=
  put { target, mode, value }

/-- Hands out the next temp. -/
def allocate (type : ValueType) : Stepwise Temp := fun page =>
  let number := page.context.temps + 1
  (.ok { number, type }, { page with context := { page.context with temps := number } })

/-- Hands out the next temp and sets it to a value. -/
def define (value : Operand) (type : ValueType) : Stepwise Temp := do
  let temp ← allocate type
  put { target := temp.slot, mode := .set, value, defining := true }
  return temp

/-- Combines a value into a temp. -/
def combine (temp : Temp) (op : BasicOp) (value : Operand) : Stepwise Unit :=
  change temp.slot (.combine op) value

/-- The end of the listing. -/
def mark : Stepwise Nat := fun page =>
  (.ok page.listing.size, page)

/-- Drops the lines from a mark on. -/
def truncate (mark : Nat) : Stepwise Unit := fun page =>
  (.ok (), { page with listing := page.listing.truncate mark })

/-- Takes out the lines from a mark on. -/
def drain (mark : Nat) : Stepwise (List Line) := fun page =>
  match page.listing.drain? mark with
  | some (lines, listing) => (.ok lines, { page with listing })
  | none => (.ok [], page)

/-- Appends lines as they are. -/
def extend (lines : List Line) : Stepwise Unit := fun page =>
  (.ok (), { page with listing := page.listing.extend lines })

/-- A step that is cut off at the mark where it began if it fails. -/
def atomic {α : Type} (step : Stepwise α) : Stepwise α := fun page =>
  match step page with
  | (.ok result, later) => (.ok result, later)
  | (.error error, later) =>
      (.error error, { later with listing := later.listing.truncate page.listing.size })

/-! ## Operations

Each is the code of the same name, line by line and with its checks where operands are read. -/

def basic (op : BasicOp) (left right : Operand) : Stepwise Operand := do
  settle (Check.finite left)
  settle (Check.finite right)
  let temp ← define left (Emit.resultType left right)
  combine temp op right
  return Emit.result temp (.basic op) [left, right]

def remainder (left right : Operand) : Stepwise Operand := do
  let quotient ← basic .div left right
  let product ← basic .mul quotient right
  basic .sub left product

def modulo (left right : Operand) : Stepwise Operand := do
  let raw ← remainder left right
  let moved ← basic .add raw right
  let rest ← remainder moved right
  return Emit.relabel rest .mod [left, right]

def halve (huge : Bool) (temp : Temp) : Stepwise Unit :=
  if huge then combine temp .div (.ofLong 2) else pure ()

def sign (value : Operand) (scale : Int64) (huge : Bool) : Stepwise Operand := do
  settle (Check.finite value)
  settle (Check.doubles scale)
  let temp ← define value .long
  halve huge temp
  combine temp .add (.ofLong Emit.pivot)
  combine temp .div (.ofLong Emit.pivot)
  combine temp .mul (.ofLong (scale * 2))
  combine temp .sub (.ofLong scale)
  return Emit.result temp .sign [value]

def knownSign (value : Operand) : Option Operand → Stepwise Operand
  | some known => pure known
  | none => sign value 1 false

def abs (value : Operand) (known : Option Operand) : Stepwise Operand := do
  let factor ← knownSign value known
  let product ← basic .mul value factor
  return Emit.relabel product .abs [value]

def correctSign (target : Slot) (divisor : Operand) : Stepwise Unit := do
  let sign ← sign (.slot target) 1 false
  let twice ← basic .sub (.ofLong 1) sign
  let negative ← basic .div twice (.ofLong 2)
  let correction ← basic .mul negative divisor
  change target (.combine .sub) correction

def moduloInPlace (target : Slot) (divisor : Operand) : Stepwise Unit := do
  let rest ← modulo (.slot target) divisor
  change target .set rest
  if Emit.isPositiveLiteral divisor then pure () else correctSign target divisor

def square (temp : Temp) : Nat → Stepwise Unit
  | 0 => pure ()
  | times + 1 => do
      combine temp .mul (.slot temp.slot)
      square temp times

/-- Writes one way, takes it out, writes the other way, and puts the first back unless the second is shorter. -/
def shorter (first second : Stepwise Operand) : Stepwise Operand := do
  let start ← mark
  let result ← first
  let size ← mark
  if size - start ≤ 1 then return result
  let lines ← drain start
  let other ← second
  let size' ← mark
  if size' - start < size - start then return other
  truncate start
  extend lines
  return result

mutual

def multiplyRest (base : Operand) (temp : Temp) (n : Nat) : Stepwise Unit :=
  if Emit.restOf n = 1 then combine temp .mul base
  else if _h : Emit.restOf n ≠ 0 then do
    let part ← power base (Emit.restOf n)
    combine temp .mul part
  else pure ()
termination_by (n, 0)
decreasing_by
  exact Prod.Lex.left _ _ (Emit.restOf_lt _h)

def powerByMultiply (base : Operand) (n : Nat) : Stepwise Operand := do
  let temp ← define base base.type
  square temp n.log2
  multiplyRest base temp n
  return Emit.result temp (.pow n) [base]
termination_by (n, 1)

def divideExcess (base : Operand) (temp : Temp) (n : Nat) : Stepwise Unit :=
  if Emit.excessOf n = 1 then combine temp .div base
  else if _h : Emit.excessOf n = 2 then do
    combine temp .div base
    combine temp .div base
  else if _hp : Emit.isPowerOfTwo (Emit.excessOf n) then do
    let divisor ← powerByMultiply base (Emit.excessOf n)
    combine temp .div divisor
  else do
    let divisor ← power base (Emit.excessOf n)
    combine temp .div divisor
termination_by (n, 2)
decreasing_by
  · rcases Nat.lt_or_eq_of_le (Emit.excessOf_le _h) with h | h
    · exact Prod.Lex.left _ _ h
    · rw [h]
      exact Prod.Lex.right _ (by decide)
  · exact Prod.Lex.left _ _ (Emit.excessOf_lt _h _hp)

def powerByDivide (base : Operand) (n : Nat) : Stepwise Operand := do
  let temp ← define base base.type
  square temp (n.log2 + 1)
  divideExcess base temp n
  return Emit.result temp (.pow n) [base]
termination_by (n, 3)

def power (base : Operand) (n : Nat) : Stepwise Operand :=
  shorter (powerByMultiply base n) (powerByDivide base n)
termination_by (n, 4)

end

def powerBy (plan : PowerPlan) (base : Operand) (n : Nat) : Stepwise Operand :=
  if n = 0 then pure (.ofLong 1)
  else
    match plan with
    | .shorter => power base n
    | .multiply => powerByMultiply base n
    | .divide => powerByDivide base n

end Stepwise

/-! ## Code line by line -/

/-- The page with code at the end of its listing. -/
def Page.append {α : Type} (page : Page) (code : Code α) : Page where
  context := { page.context with temps := code.temps }
  listing := page.listing.extend (Draft.changeLines page.listing.indent code.changes)

@[simp]
theorem Page.size_append {α : Type} (page : Page) (code : Code α) :
    (page.append code).listing.size = page.listing.size + code.changes.length := by
  simp [append, Draft.changeLines]

namespace Stepwise

/-- The step writes this code on every page, and what is said of the result of the code holds. -/
def Writes {α : Type} (step : Stepwise α) (emit : Emit α) (gives : α → Prop) : Prop :=
  ∀ page : Page,
    step page = (.ok (emit page.context.temps).result, page.append (emit page.context.temps)) ∧
      gives (emit page.context.temps).result

section Writes

variable {α β : Type} {left right value base : Operand}

@[simp]
theorem bind_apply (step : Stepwise α) (next : α → Stepwise β) (page : Page) :
    (step >>= next) page =
      match step page with
      | (.ok result, later) => next result later
      | (.error error, later) => (.error error, later) := rfl

theorem bind_of_ok {step : Stepwise α} {page later : Page} {result : α}
    (ran : step page = (.ok result, later)) (next : α → Stepwise β) :
    (step >>= next) page = next result later := by
  rw [bind_apply, ran]

theorem bind_of_error {step : Stepwise α} {page later : Page} {error : LoweringError}
    (ran : step page = (.error error, later)) (next : α → Stepwise β) :
    (step >>= next) page = (.error error, later) := by
  rw [bind_apply, ran]

theorem mark_bind (next : Nat → Stepwise α) (page : Page) :
    (mark >>= next) page = next page.listing.size page := rfl

theorem writes_pure {gives : α → Prop} {result : α} (given : gives result) :
    Writes (pure result) (pure result) gives := by
  intro page
  have none : page.append (⟨[], result, page.context.temps⟩ : Code α) = page := by
    simp only [Page.append, Draft.changeLines, Listing.extend, List.map_nil, List.append_nil]
  exact ⟨congrArg (Prod.mk _) none.symm, given⟩

theorem Writes.bind {step : Stepwise α} {emit : Emit α} {next : α → Stepwise β} {next' : α → Emit β}
    {gives : α → Prop} {gives' : β → Prop} (writes : Writes step emit gives)
    (writes' : ∀ result, gives result → Writes (next result) (next' result) gives') :
    Writes (step >>= next) (emit >>= next') gives' := by
  intro page
  obtain ⟨ran, given⟩ := writes page
  obtain ⟨ran', given'⟩ := writes' _ given (page.append (emit page.context.temps))
  refine ⟨?_, given'⟩
  rw [bind_of_ok ran, ran']
  refine congrArg (Prod.mk _) ?_
  simp only [Page.append, Emit.bind_apply, Listing.extend, Draft.changeLines, List.map_append,
    List.append_assoc]

theorem writes_change (target : Slot) (mode : Mode) (value : Operand) :
    Writes (change target mode value) (Emit.change target mode value) fun _ => True :=
  fun _ => ⟨rfl, trivial⟩

theorem writes_define (value : Operand) (type : ValueType) :
    Writes (define value type) (Emit.define value type) fun _ => True :=
  fun _ => ⟨rfl, trivial⟩

theorem writes_combine (temp : Temp) (op : BasicOp) (value : Operand) :
    Writes (combine temp op value) (Emit.combine temp op value) fun _ => True :=
  writes_change temp.slot _ value

/-- A check that passes leaves no trace. -/
theorem settle_bind {outcome : Except LoweringError Unit} (passed : outcome = .ok ()) (step : Stepwise α) :
    (settle outcome >>= fun _ => step) = step := by
  rw [passed]
  rfl

theorem finite_eq_ok {operand : Operand} : Check.finite operand = .ok () ↔ operand.isFinite := by
  unfold Check.finite
  split_ifs with finite
  · exact ⟨fun _ => finite, fun _ => rfl⟩
  · exact ⟨nofun, fun held => absurd held finite⟩

theorem writes_basic (op : BasicOp) (finite : left.isFinite) (finite' : right.isFinite) :
    Writes (basic op left right) (Emit.basic op left right) fun result => result.isFinite := by
  unfold basic
  rw [settle_bind (finite_eq_ok.mpr finite), settle_bind (finite_eq_ok.mpr finite')]
  refine (writes_define left _).bind fun temp _ => ?_
  exact (writes_combine temp op right).bind fun _ _ => writes_pure rfl

/-! ### Modulo, sign and absolute value -/

theorem writes_remainder (finite : left.isFinite) (finite' : right.isFinite) :
    Writes (remainder left right) (Emit.remainder left right) fun result => result.isFinite := by
  refine (writes_basic .div finite finite').bind fun quotient given => ?_
  refine (writes_basic .mul given finite').bind fun product given' => ?_
  exact writes_basic .sub finite given'

theorem writes_modulo (finite : left.isFinite) (finite' : right.isFinite) :
    Writes (modulo left right) (Emit.modulo left right) fun result => result.isFinite := by
  refine (writes_remainder finite finite').bind fun raw given => ?_
  refine (writes_basic .add given finite').bind fun moved given' => ?_
  refine (writes_remainder given' finite').bind fun rest given'' => ?_
  exact writes_pure (Operand.isFinite_relabel given'' _ _)

theorem writes_halve (huge : Bool) (temp : Temp) :
    Writes (halve huge temp) (Emit.halve huge temp) fun _ => True := by
  cases huge with
  | true => exact writes_combine temp .div _
  | false => exact writes_pure trivial

theorem writes_sign (finite : value.isFinite) {scale : Int64} (doubles : Check.doubles scale = .ok ())
    (huge : Bool) :
    Writes (sign value scale huge) (Emit.sign value scale huge) fun result => result.isFinite := by
  unfold sign
  rw [settle_bind (finite_eq_ok.mpr finite), settle_bind doubles]
  refine (writes_define value .long).bind fun temp _ => ?_
  refine (writes_halve huge temp).bind fun _ _ => ?_
  refine (writes_combine temp .add _).bind fun _ _ => ?_
  refine (writes_combine temp .div _).bind fun _ _ => ?_
  refine (writes_combine temp .mul _).bind fun _ _ => ?_
  exact (writes_combine temp .sub _).bind fun _ _ => writes_pure rfl

theorem writes_abs (finite : value.isFinite) {known : Option Operand}
    (finite' : ∀ sign ∈ known, sign.isFinite) :
    Writes (abs value known) (Emit.abs value known) fun result => result.isFinite := by
  have factor : Writes (knownSign value known) (Emit.knownSign value known)
      fun result => result.isFinite := by
    cases known with
    | some sign => exact writes_pure (finite' sign rfl)
    | none => exact writes_sign finite rfl false
  refine factor.bind fun factor given => ?_
  refine (writes_basic .mul finite given).bind fun product given' => ?_
  exact writes_pure (Operand.isFinite_relabel given' _ _)

/-! ### In-place modulo -/

theorem writes_correctSign (target : Slot) (finite : value.isFinite) :
    Writes (correctSign target value) (Emit.correctSign target value) fun _ => True := by
  refine (writes_sign rfl rfl false).bind fun sign given => ?_
  refine (writes_basic .sub rfl given).bind fun twice given => ?_
  refine (writes_basic .div given rfl).bind fun negative given => ?_
  refine (writes_basic .mul given finite).bind fun correction _ => ?_
  exact writes_change target _ correction

theorem writes_moduloInPlace (target : Slot) (finite : value.isFinite) :
    Writes (moduloInPlace target value) (Emit.moduloInPlace target value) fun _ => True := by
  refine (writes_modulo rfl finite).bind fun rest _ => ?_
  refine (writes_change target .set rest).bind fun _ _ => ?_
  split
  · exact writes_pure trivial
  · exact writes_correctSign target finite

/-! ### Powers -/

theorem writes_square (temp : Temp) (times : Nat) :
    Writes (square temp times) (Emit.square temp times) fun _ => True := by
  induction times with
  | zero => exact writes_pure trivial
  | succ times ih => exact (writes_combine temp .mul _).bind fun _ _ => ih

/-- The lines that code takes. -/
theorem size_append (page : Page) (code : Code α) :
    (page.append code).listing.size - page.listing.size = code.changes.length := by
  simp

/-- What is taken out at a mark and put back is as it was. Only the temps of the other way stay handed out. -/
theorem writes_shorter {first second : Stepwise Operand} {emit emit' : Emit Operand}
    (writes : Writes first emit fun _ => True) (writes' : Writes second emit' fun _ => True) :
    Writes (shorter first second) (Emit.shorter emit emit') fun _ => True := by
  intro page
  refine ⟨?_, trivial⟩
  have ran := (writes page).1
  let code := emit page.context.temps
  -- The page with the lines of the first way taken out, but not its temps.
  let bare : Page := { page with context := { page.context with temps := code.temps } }
  have ran' := (writes' bare).1
  let other := emit' code.temps
  have drained : drain page.listing.size (page.append code) =
      (.ok (Draft.changeLines page.listing.indent code.changes), bare) := by
    simp [drain, Page.append, code, bare]
  have length : (page.append code).listing.size - page.listing.size = code.changes.length :=
    size_append page code
  have length' : (bare.append other).listing.size - page.listing.size = other.changes.length :=
    size_append bare other
  have kept : Emit.shorter emit emit' page.context.temps =
      if code.changes.length ≤ 1 then code
      else if other.changes.length < code.changes.length then other
      else { code with temps := other.temps } := rfl
  unfold shorter
  rw [kept, mark_bind, bind_of_ok ran, mark_bind, length]
  by_cases single : code.changes.length ≤ 1
  · rw [if_pos single, if_pos single]
    rfl
  rw [if_neg single, if_neg single, bind_of_ok drained, bind_of_ok ran', mark_bind, length']
  by_cases fewer : other.changes.length < code.changes.length
  · rw [if_pos fewer, if_pos fewer]
    rfl
  · rw [if_neg fewer, if_neg fewer]
    have restored : (bare.append other).listing.truncate page.listing.size = page.listing :=
      page.listing.truncate_extend _
    show (Except.ok code.result, Page.mk (bare.append other).context
      (((bare.append other).listing.truncate page.listing.size).extend _)) = _
    rw [restored]
    rfl

section Power

variable {n : Nat} (ih : ∀ m < n, Writes (power base m) (Emit.power base m) fun _ => True)
include ih

theorem writes_multiplyRest (temp : Temp) :
    Writes (multiplyRest base temp n) (Emit.multiplyRest base temp n) fun _ => True := by
  unfold multiplyRest Emit.multiplyRest
  split_ifs with one rest
  · exact writes_combine temp .mul base
  · exact (ih _ (Emit.restOf_lt rest)).bind fun part _ => writes_combine temp .mul part
  · exact writes_pure trivial

theorem writes_powerByMultiply :
    Writes (powerByMultiply base n) (Emit.powerByMultiply base n) fun _ => True := by
  unfold powerByMultiply Emit.powerByMultiply
  refine (writes_define base _).bind fun temp _ => ?_
  refine (writes_square temp _).bind fun _ _ => ?_
  exact (writes_multiplyRest ih temp).bind fun _ _ => writes_pure trivial

theorem writes_divideExcess (temp : Temp) :
    Writes (divideExcess base temp n) (Emit.divideExcess base temp n) fun _ => True := by
  unfold divideExcess Emit.divideExcess
  split_ifs with one two square
  · exact writes_combine temp .div base
  · exact (writes_combine temp .div base).bind fun _ _ => writes_combine temp .div base
  · have smaller := Emit.excessOf_le two
    refine (writes_powerByMultiply fun m less => ih m (Nat.lt_of_lt_of_le less smaller)).bind
      fun divisor _ => ?_
    exact writes_combine temp .div divisor
  · exact (ih _ (Emit.excessOf_lt two square)).bind fun divisor _ => writes_combine temp .div divisor

theorem writes_powerByDivide :
    Writes (powerByDivide base n) (Emit.powerByDivide base n) fun _ => True := by
  unfold powerByDivide Emit.powerByDivide
  refine (writes_define base _).bind fun temp _ => ?_
  refine (writes_square temp _).bind fun _ _ => ?_
  exact (writes_divideExcess ih temp).bind fun _ _ => writes_pure trivial

end Power

theorem writes_power (base : Operand) (n : Nat) :
    Writes (power base n) (Emit.power base n) fun _ => True := by
  induction n using Nat.strong_induction_on with
  | h n ih =>
      unfold power Emit.power
      exact writes_shorter (writes_powerByMultiply ih) (writes_powerByDivide ih)

theorem writes_powerBy (plan : PowerPlan) (base : Operand) (n : Nat) :
    Writes (powerBy plan base n) (Emit.powerBy plan base n) fun _ => True := by
  unfold powerBy Emit.powerBy
  split_ifs
  · exact writes_pure trivial
  · cases plan with
    | shorter => exact writes_power base n
    | multiply => exact writes_powerByMultiply fun m _ => writes_power base m
    | divide => exact writes_powerByDivide fun m _ => writes_power base m

end Writes

end Stepwise

end StatScript
