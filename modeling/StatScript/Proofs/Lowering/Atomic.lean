import StatScript.Proofs.Lowering.Stepwise

/-!
# All or nothing

Written line by line, an operation that fails halfway is cut off at the mark where it began. Written as a whole,
it makes every check first. Both ways have the same outcome and leave the same lines, whatever stands in the
listing before.

Results:
1. `Stepwise.agrees_atomic`: an operation that is cut off where it began.
2. `Request.agrees`: every operation has the same outcome and leaves the same lines both ways.
3. `lower_all_or_nothing`: so an operation that fails leaves nothing behind.
-/

namespace StatScript

/-! ## Both ways -/

/-- A lowering on a page as a whole: it writes all of its code or fails. -/
def Page.lower {α : Type} (page : Page) (lowering : Except LoweringError (Emit α)) :
    Except LoweringError α × Page :=
  match page.context.lower page.listing lowering with
  | .error error => (.error error, page)
  | .ok (result, context, listing) => (.ok result, { context, listing })

namespace Stepwise

/-- The step fails before it has written anything. -/
def Refuses {α : Type} (step : Stepwise α) (error : LoweringError) : Prop :=
  ∀ page, step page = (.error error, page)

/-- The step has the outcome of the lowering and leaves the same page. -/
def Agrees {α : Type} (step : Stepwise α) (lowering : Except LoweringError (Emit α)) : Prop :=
  ∀ page, step page = page.lower lowering

section Agrees

variable {α β : Type} {step : Stepwise α} {lowering : Except LoweringError (Emit α)}
  {outcome : Except LoweringError Unit} {left right value : Operand}

theorem Refuses.bind {error : LoweringError} (refuses : Refuses step error) (next : α → Stepwise β) :
    Refuses (step >>= next) error :=
  fun page => bind_of_error (refuses page) next

theorem Refuses.agrees {error : LoweringError} (refuses : Refuses step error) :
    Agrees step (.error error) :=
  refuses

theorem Writes.agrees {emit : Emit α} {gives : α → Prop} (writes : Writes step emit gives) :
    Agrees step (.ok emit) :=
  fun page => (writes page).1

/-- A check of the lowering that the step makes somewhere, before it has written anything. -/
theorem agrees_checked (refuses : ∀ error, outcome = .error error → Refuses step error)
    (agrees : outcome = .ok () → Agrees step lowering) : Agrees step (outcome >>= fun _ => lowering) := by
  cases outcome with
  | error error => exact (refuses error rfl).agrees
  | ok _ => exact agrees rfl

theorem agrees_check (agrees : outcome = .ok () → Agrees step lowering) :
    Agrees (settle outcome >>= fun _ => step) (outcome >>= fun _ => lowering) := by
  refine agrees_checked (fun error refused => ?_) fun passed => ?_
  · subst refused
    exact Refuses.bind (fun _ => rfl) _
  · rw [settle_bind passed]
    exact agrees passed

/-- Where nothing was written, nothing is cut off. -/
theorem agrees_atomic (agrees : Agrees step lowering) : Agrees (atomic step) lowering := by
  intro page
  rw [atomic, agrees page]
  cases lowering with
  | error error =>
      show (Except.error error, Page.mk page.context (page.listing.truncate page.listing.size)) = _
      rw [page.listing.truncate_size]
      rfl
  | ok emit => rfl

/-- Another answer. -/
theorem agrees_answer (agrees : Agrees step lowering) (returned : α → Option Operand) :
    Agrees (returned <$> step) (Request.answer returned lowering) := by
  cases lowering with
  | error error => exact (Refuses.bind agrees _).agrees
  | ok emit =>
      have writes : Writes step emit fun _ => True := fun page => ⟨agrees page, trivial⟩
      have answered : Writes (returned <$> step) (returned <$> emit) fun _ => True :=
        writes.bind fun result _ => writes_pure trivial
      exact answered.agrees

theorem refuses_basic_left {error : LoweringError} (refused : Check.finite left = .error error)
    (op : BasicOp) (right : Operand) : Refuses (basic op left right) error := by
  unfold basic
  rw [refused]
  exact Refuses.bind (fun _ => rfl) _

theorem refuses_basic_right {error : LoweringError} (finite : left.isFinite)
    (refused : Check.finite right = .error error) (op : BasicOp) : Refuses (basic op left right) error := by
  unfold basic
  rw [settle_bind (finite_eq_ok.mpr finite), refused]
  exact Refuses.bind (fun _ => rfl) _

/-- A step that reads two operands before it writes. -/
theorem agrees_operands {emit : Emit α} {gives : α → Prop}
    (refuses : ∀ error, Check.finite left = .error error → Refuses step error)
    (refuses' : left.isFinite → ∀ error, Check.finite right = .error error → Refuses step error)
    (writes : left.isFinite → right.isFinite → Writes step emit gives) :
    Agrees step (do
      Check.finite left
      Check.finite right
      return emit) :=
  agrees_checked refuses fun passed =>
    agrees_checked (refuses' (finite_eq_ok.mp passed)) fun passed' =>
      (writes (finite_eq_ok.mp passed) (finite_eq_ok.mp passed')).agrees

end Agrees

/-! ## All operations -/

def lowerBasic (op : BasicOp) (left right : Operand) : Stepwise Operand := do
  settle (Check.compatible op.name left right)
  atomic (basic op left right)

def lowerCombination : Combination → Operand → Operand → Stepwise Operand
  | .basic op, left, right => lowerBasic op left right
  | .floorDiv, left, right => lowerBasic .div left right
  | .reflected op, this, other =>
      if op.isCommutative then lowerBasic op this other else lowerBasic op other this

def lowerModulo (left right : Operand) : Stepwise Operand := do
  settle (Check.compatible Operation.mod.name left right)
  settle (Check.numeric Operation.mod.name left)
  settle (Check.numeric Operation.mod.name right)
  atomic (modulo left right)

def lowerPower (plan : PowerPlan) (base : Operand) (exponent : Int) : Stepwise Operand :=
  if exponent < 0 then settle (.error (.input (.negativeExponent exponent base)))
  else if Lowering.maxExponent < exponent then
    settle (.error (.input (.exponentTooLarge exponent Lowering.maxExponent)))
  else do
    settle (Check.numeric (Operation.pow exponent.toNat).name base)
    atomic (powerBy plan base exponent.toNat)

def lowerSign (value : Operand) (scale : Int64) (huge : Bool) : Stepwise Operand := do
  settle (Check.numeric Operation.sign.name value)
  atomic (sign value scale huge)

def lowerAbs (value : Operand) (known : Option Operand) : Stepwise Operand := do
  settle (Check.numeric Operation.abs.name value)
  atomic (abs value known)

def lowerAssign (target : Slot) (value : Operand) : Stepwise Unit := do
  settle (Check.compatible "assign" (.slot target) value)
  settle (Check.finite value)
  change target .set value

def lowerAssignOp (target : Slot) (op : AssignOp) (value : Operand) : Stepwise Unit := do
  settle (Check.compatible "assign" (.slot target) value)
  settle (Check.finite value)
  match op with
  | .basic op => change target (.combine op) value
  | .mod => do
      settle (Check.numeric Operation.mod.name (.slot target))
      settle (Check.numeric Operation.mod.name value)
      atomic (moduloInPlace target value)

section Operations

variable {value : Operand}

theorem agrees_basic (op : BasicOp) (left right : Operand) :
    Agrees (lowerBasic op left right) (Lowering.basic op left right) :=
  agrees_check fun _ => agrees_atomic (agrees_operands
    (fun _ refused => refuses_basic_left refused op right)
    (fun finite _ refused => refuses_basic_right finite refused op) (writes_basic op))

theorem agrees_combination (call : Combination) (left right : Operand) :
    Agrees (lowerCombination call left right) (call.lowering left right) := by
  cases call with
  | basic op => exact agrees_basic op left right
  | floorDiv => exact agrees_basic .div left right
  | reflected op =>
      show Agrees (if op.isCommutative then lowerBasic op left right else lowerBasic op right left)
        (Lowering.reflected op left right)
      unfold Lowering.reflected
      split_ifs
      · exact agrees_basic op left right
      · exact agrees_basic op right left

/-- The first division reads both operands. -/
theorem agrees_modulo (left right : Operand) :
    Agrees (lowerModulo left right) (Lowering.modulo left right) := by
  refine agrees_check fun _ => agrees_check fun _ => agrees_check fun _ => agrees_atomic ?_
  refine agrees_operands (fun _ refused => ?_) (fun finite _ refused => ?_) writes_modulo
  · exact ((refuses_basic_left refused .div right).bind _).bind _
  · exact ((refuses_basic_right finite refused .div).bind _).bind _

theorem agrees_power (plan : PowerPlan) (base : Operand) (exponent : Int) :
    Agrees (lowerPower plan base exponent) (Lowering.power plan base exponent) := by
  unfold lowerPower Lowering.power
  split_ifs
  · exact fun _ => rfl
  · exact fun _ => rfl
  · exact agrees_check fun _ => agrees_atomic (writes_powerBy plan base _).agrees

theorem refuses_sign {error : LoweringError} (refused : Check.finite value = .error error) (scale : Int64)
    (huge : Bool) : Refuses (sign value scale huge) error := by
  unfold sign
  rw [refused]
  exact Refuses.bind (fun _ => rfl) _

theorem agrees_sign (value : Operand) (scale : Int64) (huge : Bool) :
    Agrees (lowerSign value scale huge) (Lowering.sign value scale huge) := by
  refine agrees_check fun _ => agrees_atomic ?_
  refine agrees_checked (fun _ refused => refuses_sign refused scale huge) fun passed => ?_
  have finite := finite_eq_ok.mp passed
  refine agrees_checked (fun _ refused => ?_) fun doubles => (writes_sign finite doubles huge).agrees
  unfold sign
  rw [settle_bind passed, refused]
  exact Refuses.bind (fun _ => rfl) _

theorem agrees_abs (value : Operand) (known : Option Operand) :
    Agrees (lowerAbs value known) (Lowering.abs value known) := by
  refine agrees_check fun _ => agrees_atomic ?_
  cases known with
  | none =>
      have unknown : ∀ sign ∈ (none : Option Operand), sign.isFinite := nofun
      refine agrees_checked (fun _ refused => ?_) fun passed => ?_
      · exact (refuses_sign refused 1 false).bind _
      · exact (writes_abs (finite_eq_ok.mp passed) unknown).agrees
  | some sign =>
      have known (finite : sign.isFinite) : ∀ other ∈ some sign, other.isFinite := by
        rintro _ ⟨⟩
        exact finite
      refine agrees_operands (fun _ refused => ?_) (fun finite _ refused => ?_)
        fun finite finite' => writes_abs finite (known finite')
      · exact (refuses_basic_left refused .mul sign).bind _
      · exact (refuses_basic_right finite refused .mul).bind _

theorem agrees_assign (target : Slot) (value : Operand) :
    Agrees (lowerAssign target value) (Lowering.assign target value) :=
  agrees_check fun _ => agrees_check fun _ => (writes_change target .set value).agrees

theorem agrees_assignOp (target : Slot) (op : AssignOp) (value : Operand) :
    Agrees (lowerAssignOp target op value) (Lowering.assignOp target op value) := by
  refine agrees_check fun _ => agrees_check fun passed => ?_
  cases op with
  | basic op => exact (writes_change target _ value).agrees
  | mod =>
      refine agrees_check fun _ => agrees_check fun _ => agrees_atomic ?_
      exact (writes_moduloInPlace target (finite_eq_ok.mp passed)).agrees

/-- A comparison writes nothing. -/
theorem agrees_settle {α : Type} (outcome : Except LoweringError α) (returned : α → Option Operand) :
    Agrees (returned <$> settle outcome) (outcome.map fun result => pure (returned result)) := by
  cases outcome with
  | error error => exact fun _ => rfl
  | ok result =>
      have writes : Writes (pure (returned result)) (pure (returned result)) fun _ => True :=
        writes_pure trivial
      exact writes.agrees

end Operations

end Stepwise

namespace Request

/-- A request line by line. -/
def stepwise : Request → Stepwise (Option Operand)
  | combine call left right => some <$> Stepwise.lowerCombination call left right
  | modulo left right => some <$> Stepwise.lowerModulo left right
  | reflectedModulo this other => some <$> Stepwise.lowerModulo other this
  | power plan base exponent => some <$> Stepwise.lowerPower plan base exponent
  | sign value scale huge => some <$> Stepwise.lowerSign value scale huge
  | abs value known => some <$> Stepwise.lowerAbs value known
  | assign target value => (fun _ => none) <$> Stepwise.lowerAssign target value
  | assignOp target op value => (fun _ => none) <$> Stepwise.lowerAssignOp target op value
  | compare left comparison right =>
      (fun _ => none) <$> Stepwise.settle (Lowering.compare left comparison right)

/-- Every operation has the same outcome both ways, and leaves the same lines. -/
theorem agrees (request : Request) : request.stepwise.Agrees request.lowering := by
  cases request with
  | combine call left right =>
      exact Stepwise.agrees_answer (Stepwise.agrees_combination call left right) some
  | modulo left right => exact Stepwise.agrees_answer (Stepwise.agrees_modulo left right) some
  | reflectedModulo this other => exact Stepwise.agrees_answer (Stepwise.agrees_modulo other this) some
  | power plan base exponent =>
      exact Stepwise.agrees_answer (Stepwise.agrees_power plan base exponent) some
  | sign value scale huge => exact Stepwise.agrees_answer (Stepwise.agrees_sign value scale huge) some
  | abs value known => exact Stepwise.agrees_answer (Stepwise.agrees_abs value known) some
  | assign target value => exact Stepwise.agrees_answer (Stepwise.agrees_assign target value) _
  | assignOp target op value => exact Stepwise.agrees_answer (Stepwise.agrees_assignOp target op value) _
  | compare left comparison right => exact Stepwise.agrees_settle _ _

end Request

/-- An operation that is written line by line, in any context and at the end of any listing, has the outcome
and leaves the lines of its lowering as a whole. If it fails, the page is as before. If not, the lines before
are where they were, the preamble and the depth are the same, and no slot was declared. -/
theorem lower_all_or_nothing (request : Request) (context : Context) (listing : Listing) :
    match request.stepwise ⟨context, listing⟩ with
    | (.error error, later) =>
        context.lower listing request.lowering = .error error ∧ later = ⟨context, listing⟩
    | (.ok result, later) =>
        context.lower listing request.lowering = .ok (result, later.context, later.listing) ∧
          listing.lines <+: later.listing.lines ∧ later.listing.preamble = listing.preamble ∧
          later.listing.indent = listing.indent ∧ later.context.registry = context.registry := by
  rw [request.agrees]
  cases lowered : request.lowering with
  | error error => exact ⟨rfl, rfl⟩
  | ok emit =>
      refine ⟨rfl, ?_, rfl, rfl, rfl⟩
      exact ⟨_, List.append_assoc _ _ _⟩

end StatScript
