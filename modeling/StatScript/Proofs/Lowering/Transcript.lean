import StatScript.Proofs.Lowering.Power
import StatScript.Proofs.Lowering.Scope

/-!
# Sequences of requests

Operations are asked for one after another, of one context and one listing. An operand is a plain one or a
result that was returned before, and a request that is refused leaves everything as it was.

Results:
1. `Request.writes`: the code of a request writes in every scope that has its operands.
2. `Transcript.Orderly.step`, `Transcript.Orderly.run`: so the listing holds changes that write in scope.
3. `temps_defined_once`: each temp that is named anywhere is defined by one line, the first that names it.
-/

namespace StatScript

/-- An operation that the lowering is asked for. -/
inductive Request where
  | combine (call : Combination) (left right : Operand)
  | modulo (left right : Operand)
  | reflectedModulo (this other : Operand)
  | power (plan : PowerPlan) (base : Operand) (exponent : Int)
  | sign (value : Operand) (scale : Int64) (huge : Bool)
  | abs (value : Operand) (known : Option Operand)
  | assign (target : Slot) (value : Operand)
  | assignOp (target : Slot) (op : AssignOp) (value : Operand)
  | compare (left : Operand) (comparison : Comparison) (right : Operand)

namespace Request

/-- The operands of a request. The target of an assignment is one of them. -/
def operands : Request → List Operand
  | combine _ left right | modulo left right | compare left _ right => [left, right]
  | reflectedModulo this other => [this, other]
  | power _ base _ => [base]
  | sign value _ _ => [value]
  | abs value known => value :: known.toList
  | assign target value | assignOp target _ value => [.slot target, value]

/-- The lowering with another answer. -/
def answer {α : Type} (returned : α → Option Operand) (lowering : Except LoweringError (Emit α)) :
    Except LoweringError (Emit (Option Operand)) :=
  lowering.map fun emit => returned <$> emit

/-- The lowering of a request. An assignment returns no operand, and a comparison writes no code. -/
def lowering : Request → Except LoweringError (Emit (Option Operand))
  | combine call left right => answer some (call.lowering left right)
  | modulo left right => answer some (Lowering.modulo left right)
  | reflectedModulo this other => answer some (Lowering.modulo other this)
  | power plan base exponent => answer some (Lowering.power plan base exponent)
  | sign value scale huge => answer some (Lowering.sign value scale huge)
  | abs value known => answer some (Lowering.abs value known)
  | assign target value => answer (fun _ => none) (Lowering.assign target value)
  | assignOp target op value => answer (fun _ => none) (Lowering.assignOp target op value)
  | compare left comparison right =>
      (Lowering.compare left comparison right).map fun _ => pure none

end Request

/-- What requests have left so far, with the operands that were returned. -/
structure Transcript where
  context : Context := {}
  listing : Listing := {}
  results : List Operand := []

namespace Transcript

/-- One more request. -/
def step (transcript : Transcript) (request : Request) : Transcript :=
  match transcript.context.lower transcript.listing request.lowering with
  | .error _ => transcript
  | .ok (result, context, listing) =>
      { context, listing, results := transcript.results ++ result.toList }

/-- The transcript with code at the end of its listing. -/
def append (transcript : Transcript) (code : Code (Option Operand)) : Transcript where
  context := { transcript.context with temps := code.temps }
  listing := transcript.listing.extend (Draft.changeLines transcript.listing.indent code.changes)
  results := transcript.results ++ code.result.toList

theorem step_error {transcript : Transcript} {request : Request} {error : LoweringError}
    (refused : request.lowering = .error error) : transcript.step request = transcript := by
  rw [step, refused]
  rfl

theorem step_ok {transcript : Transcript} {request : Request} {emit : Emit (Option Operand)}
    (lowered : request.lowering = .ok emit) :
    transcript.step request = transcript.append (emit transcript.context.temps) := by
  rw [step, lowered]
  rfl

/-- Requests one after another, from the start. -/
def run (requests : List Request) : Transcript :=
  requests.foldl step {}

/-- The operands that may be given next: plain ones, results, and the slots that hold results. -/
inductive Offers (transcript : Transcript) : Operand → Prop
  | plain {operand : Operand} : operand.Plain → Offers transcript operand
  | result {operand : Operand} : operand ∈ transcript.results → Offers transcript operand
  | holder {operand : Operand} {cell target : Slot} : operand ∈ transcript.results →
      operand.slot? = some cell → target.key = cell.key → Offers transcript (.slot target)

/-- Each request is given operands that may be given by then. -/
def Admits (transcript : Transcript) : List Request → Prop
  | [] => True
  | request :: rest =>
      (∀ operand ∈ request.operands, transcript.Offers operand) ∧ (transcript.step request).Admits rest

end Transcript

/-! ## One request -/

namespace Lowering

variable {α : Type} {scope : Scope} {gives : Scope → α → Prop} {left right value base : Operand}

/-- The code of an operation, if it is not refused, writes in a scope. -/
def Scoped (scope : Scope) (lowering : Except LoweringError (Emit α)) (gives : Scope → α → Prop) : Prop :=
  ∀ emit, lowering = .ok emit → emit.Scoped scope gives

theorem scoped_ok {emit : Emit α} (emits : emit.Scoped scope gives) : Scoped scope (.ok emit) gives := by
  rintro _ ⟨⟩
  exact emits

theorem scoped_check {check : Except LoweringError Unit} {rest : Except LoweringError (Emit α)}
    (emits : Scoped scope rest gives) : Scoped scope (check >>= fun _ => rest) gives := by
  intro emit lowered
  obtain ⟨_, -, lowered⟩ := bind_eq_ok.mp lowered
  exact emits emit lowered

theorem scoped_basic (op : BasicOp) (inScope : left.InScope scope) (inScope' : right.InScope scope) :
    Scoped scope (basic op left right) Operand.InScope :=
  scoped_check (scoped_check (scoped_check (scoped_ok (Emit.scoped_basic op inScope inScope'))))

theorem scoped_combination (call : Combination) (inScope : left.InScope scope)
    (inScope' : right.InScope scope) : Scoped scope (call.lowering left right) Operand.InScope := by
  cases call with
  | basic op => exact scoped_basic op inScope inScope'
  | floorDiv => exact scoped_basic .div inScope inScope'
  | reflected op =>
      show Scoped scope (reflected op left right) _
      unfold reflected
      split
      · exact scoped_basic op inScope inScope'
      · exact scoped_basic op inScope' inScope

theorem scoped_modulo (inScope : left.InScope scope) (inScope' : right.InScope scope) :
    Scoped scope (modulo left right) Operand.InScope := by
  refine scoped_check (scoped_check (scoped_check (scoped_check (scoped_check ?_))))
  exact scoped_ok (Emit.scoped_modulo inScope inScope')

theorem scoped_sign (inScope : value.InScope scope) (scale : Int64) (huge : Bool) :
    Scoped scope (sign value scale huge) Operand.InScope :=
  scoped_check (scoped_check (scoped_check (scoped_ok (Emit.scoped_sign inScope scale huge))))

theorem scoped_abs (inScope : value.InScope scope) {known : Option Operand}
    (inScope' : ∀ sign ∈ known, sign.InScope scope) : Scoped scope (abs value known) Operand.InScope :=
  scoped_check (scoped_check (scoped_check (scoped_ok (Emit.scoped_abs inScope inScope'))))

theorem scoped_power (plan : PowerPlan) (inScope : base.InScope scope) (exponent : Int) :
    Scoped scope (power plan base exponent) Operand.InScope := by
  unfold power
  split
  · exact nofun
  split
  · exact nofun
  · exact scoped_check (scoped_ok (Emit.scoped_powerBy plan inScope _))

theorem scoped_assign {target : Slot} (inScope : target.key.InScope scope)
    (inScope' : value.InScope scope) : Scoped scope (assign target value) fun _ _ => True :=
  scoped_check (scoped_check (scoped_ok (Emit.scoped_change inScope _ inScope')))

theorem scoped_assignOp {target : Slot} (inScope : target.key.InScope scope) (op : AssignOp)
    (inScope' : value.InScope scope) : Scoped scope (assignOp target op value) fun _ _ => True := by
  refine scoped_check (scoped_check ?_)
  cases op with
  | basic op => exact scoped_ok (Emit.scoped_change inScope _ inScope')
  | mod => exact scoped_check (scoped_check (scoped_ok (Emit.scoped_moduloInPlace inScope inScope')))

end Lowering

namespace Request

variable {scope : Scope}

theorem scoped_answer {α : Type} {gives : Scope → α → Prop} {returned : α → Option Operand}
    {lowering : Except LoweringError (Emit α)} (emits : Lowering.Scoped scope lowering gives)
    (given : ∀ {after result}, gives after result → ∀ operand ∈ returned result, operand.InScope after) :
    Lowering.Scoped scope (answer returned lowering)
      fun after result => ∀ operand ∈ result, operand.InScope after := by
  cases lowering with
  | error error => exact nofun
  | ok emit =>
      refine Lowering.scoped_ok ((emits emit rfl).bind fun after result _ held => ?_)
      exact Emit.scoped_pure (given held)

theorem inScope_pair {left right : Operand} (inScope : ∀ operand ∈ [left, right], operand.InScope scope) :
    left.InScope scope ∧ right.InScope scope := by
  simpa using inScope

theorem inScope_some {after : Scope} {result : Operand} (inScope : result.InScope after) :
    ∀ operand ∈ some result, operand.InScope after := by
  rintro _ ⟨⟩
  exact inScope

/-- The code of a request writes in every scope that has its operands, and returns an operand in scope. -/
theorem writes {request : Request} (inScope : ∀ operand ∈ request.operands, operand.InScope scope) :
    Lowering.Scoped scope request.lowering fun after result => ∀ operand ∈ result, operand.InScope after := by
  cases request with
  | combine call left right =>
      obtain ⟨first, second⟩ := inScope_pair inScope
      exact scoped_answer (Lowering.scoped_combination call first second) inScope_some
  | modulo left right =>
      obtain ⟨first, second⟩ := inScope_pair inScope
      exact scoped_answer (Lowering.scoped_modulo first second) inScope_some
  | reflectedModulo this other =>
      obtain ⟨first, second⟩ := inScope_pair inScope
      exact scoped_answer (Lowering.scoped_modulo second first) inScope_some
  | power plan base exponent =>
      have held := List.forall_mem_singleton.mp inScope
      exact scoped_answer (Lowering.scoped_power plan held exponent) inScope_some
  | sign value scale huge =>
      have held := List.forall_mem_singleton.mp inScope
      exact scoped_answer (Lowering.scoped_sign held scale huge) inScope_some
  | abs value known =>
      obtain ⟨first, second⟩ := List.forall_mem_cons.mp inScope
      have held : ∀ sign ∈ known, sign.InScope scope := fun sign member =>
        second sign (Option.mem_toList.mpr member)
      exact scoped_answer (Lowering.scoped_abs first held) inScope_some
  | assign target value =>
      obtain ⟨first, second⟩ := inScope_pair inScope
      exact scoped_answer (Lowering.scoped_assign (first.held rfl) second) nofun
  | assignOp target op value =>
      obtain ⟨first, second⟩ := inScope_pair inScope
      exact scoped_answer (Lowering.scoped_assignOp (first.held rfl) op second) nofun
  | compare left comparison right =>
      show Lowering.Scoped scope ((Lowering.compare left comparison right).map _) _
      cases Lowering.compare left comparison right with
      | error error => exact nofun
      | ok condition => exact Lowering.scoped_ok (Emit.scoped_pure nofun)

end Request

/-! ## All requests -/

namespace Transcript

variable {transcript : Transcript} {changes : List Change} {scope : Scope}

/-- The listing holds changes that write in scope from the start, and leave the results in scope. -/
structure Orderly (transcript : Transcript) (changes : List Change) (scope : Scope) : Prop where
  lines : transcript.listing.lines = Draft.changeLines transcript.listing.indent changes
  writes : Writes .empty changes scope
  bound : scope.temps ≤ transcript.context.temps
  results : ∀ operand ∈ transcript.results, operand.InScope scope

theorem orderly_empty : Orderly {} [] .empty :=
  ⟨rfl, .done _, Nat.le_refl _, nofun⟩

theorem Offers.inScope {operand : Operand} (offers : transcript.Offers operand)
    (orderly : transcript.Orderly changes scope) : operand.InScope scope := by
  cases offers with
  | plain plain => exact .inl plain
  | result member => exact orderly.results operand member
  | holder member held same =>
      refine Operand.inScope_slot ?_
      rw [same]
      exact (orderly.results _ member).held held

theorem Orderly.step (orderly : transcript.Orderly changes scope) {request : Request}
    (offers : ∀ operand ∈ request.operands, transcript.Offers operand) :
    ∃ changes' scope', (transcript.step request).Orderly changes' scope' := by
  cases lowered : request.lowering with
  | error error =>
      rw [step_error lowered]
      exact ⟨changes, scope, orderly⟩
  | ok emit =>
      have inScope : ∀ operand ∈ request.operands, operand.InScope scope := fun operand member =>
        (offers operand member).inScope orderly
      obtain ⟨-, after, writes, bound, given⟩ := Request.writes inScope emit lowered _ orderly.bound
      rw [step_ok lowered]
      refine ⟨changes ++ (emit transcript.context.temps).changes, after, ?_,
        orderly.writes.append writes, bound, ?_⟩
      · have lines := orderly.lines
        simp only [Listing.lines, append, Listing.extend, Draft.changeLines, List.map_append] at lines ⊢
        rw [← List.append_assoc, lines]
      · intro operand member
        rcases List.mem_append.mp member with earlier | new
        · exact (orderly.results operand earlier).mono writes.grows
        · exact given operand (Option.mem_toList.mp new)

theorem Orderly.run (orderly : transcript.Orderly changes scope) {requests : List Request}
    (admits : transcript.Admits requests) :
    ∃ changes' scope', (requests.foldl Transcript.step transcript).Orderly changes' scope' := by
  induction requests generalizing transcript changes scope with
  | nil => exact ⟨changes, scope, orderly⟩
  | cons request rest ih =>
      obtain ⟨changes', scope', orderly'⟩ := orderly.step admits.1
      exact ih orderly' admits.2

end Transcript

/-! ## Lines -/

/-- The line asks the target to unset a temp by itself, and sets the temp to a value. -/
def Line.Defines (line : Line) (number : Nat) (value : String) : Prop :=
  line.autoUnset = true ∧ line.text = (SlotKey.temp number).left ++ " set " ++ value

/-- One line defines the temp, and up to it the temp is not named. -/
def DefinedOnce (lines : List Line) (number : Nat) : Prop :=
  ∃ before line value behind, lines = before ++ line :: behind ∧ line.Defines number value ∧
    (∀ other ∈ before, (SlotKey.temp number).name ∉ tempsIn other.text) ∧
    (SlotKey.temp number).name ∉ tempsIn value ∧
    ∀ other ∈ behind, ∀ value, ¬other.Defines number value

/-- A temp that was handed out and is defined once. -/
structure Transcript.Defines (transcript : Transcript) (number : Nat) : Prop where
  least : 1 ≤ number
  most : number ≤ transcript.context.temps
  once : DefinedOnce transcript.listing.lines number

theorem text_defining (temp : Temp) (value : Operand) :
    (defining temp value).text = (SlotKey.temp temp.number).left ++ " set " ++ value.right := by
  show (SlotKey.temp temp.number).left ++ " " ++ "set" ++ " " ++ value.right = _
  have word : " set " = " " ++ "set" ++ " " := rfl
  rw [word]
  simp only [String.append_assoc]

/-- The text of a line tells which temp it defines. -/
theorem tempsIn_set (number : Nat) (value : String) :
    tempsIn ((SlotKey.temp number).left ++ " set " ++ value) = (SlotKey.temp number).name :: tempsIn value := by
  have text : (SlotKey.temp number).left ++ " set " ++ value =
      (SlotKey.temp number).left ++ String.singleton ' ' ++ ("set" ++ String.singleton ' ' ++ value) := by
    have word : " set " = String.singleton ' ' ++ ("set" ++ String.singleton ' ') := rfl
    rw [word]
    simp only [String.append_assoc]
  have word : tempsIn "set" = [] := rfl
  have name : tempsIn (SlotKey.temp number).left = [(SlotKey.temp number).name] :=
    (tempsIn_left _).trans (SlotKey.names_temp number)
  rw [text, tempsIn_append rfl, tempsIn_append rfl, word, name]
  rfl

theorem Line.Defines.eq_of_text {line other : Line} {number number' : Nat} {value value' : String}
    (defines : line.Defines number value) (defines' : other.Defines number' value')
    (same : line.text = other.text) : number = number' := by
  rw [defines.2, defines'.2] at same
  have names := congrArg tempsIn same
  rw [tempsIn_set, tempsIn_set] at names
  exact SlotKey.temp_name_injective (List.cons.inj names).1

namespace Transcript

variable {transcript : Transcript} {changes : List Change} {scope : Scope}

theorem mem_changeLines {indent : Nat} {line : Line} :
    line ∈ Draft.changeLines indent changes ↔ ∃ change ∈ changes, { change.line with indent } = line := by
  simp [Draft.changeLines]

theorem Orderly.exists_change (orderly : transcript.Orderly changes scope) {line : Line}
    (listed : line ∈ transcript.listing.lines) :
    ∃ change ∈ changes, { change.line with indent := transcript.listing.indent } = line := by
  rw [orderly.lines] at listed
  exact mem_changeLines.mp listed

theorem Orderly.defines (orderly : transcript.Orderly changes scope) {number : Nat}
    (known : number ∈ scope.known) : transcript.Defines number := by
  obtain ⟨least, most⟩ := scope.bounded number known
  refine ⟨least, Nat.le_trans most orderly.bound, ?_⟩
  obtain ⟨before, temp, value, behind, rfl, rfl, earlier, own, later⟩ := orderly.writes.defined known nofun
  have lines := orderly.lines
  simp only [Draft.changeLines, List.map_append, List.map_cons] at lines
  refine ⟨_, _, value.right, _, lines, ⟨rfl, text_defining temp value⟩, ?_, own, ?_⟩
  · intro other listed
    obtain ⟨change, member, rfl⟩ := mem_changeLines.mp listed
    exact earlier change member
  · intro other listed text defines
    obtain ⟨change, member, rfl⟩ := mem_changeLines.mp listed
    obtain ⟨temp', value', rfl, -⟩ := orderly.writes.exists_defining
      (List.mem_append_right _ (List.mem_cons_of_mem _ member)) defines.1
    have own : Line.Defines (defining temp' value').line temp'.number value'.right :=
      ⟨rfl, text_defining temp' value'⟩
    exact later _ member rfl (congrArg SlotKey.temp (own.eq_of_text defines rfl))

end Transcript

/-- Behind any requests from the start, each temp that a line names, or that holds a result, was handed out
and is defined by exactly one line, the first that names it, and no other line asks to be unset. So no line
names a temp of a power that was not kept. -/
theorem temps_defined_once {requests : List Request} (admits : Transcript.Admits {} requests) :
    let written := Transcript.run requests
    (∀ line ∈ written.listing.lines, ∀ name ∈ tempsIn line.text,
      ∃ number, name = (SlotKey.temp number).name ∧ written.Defines number) ∧
    (∀ result ∈ written.results, ∀ cell number, result.slot? = some cell → cell.key = .temp number →
      written.Defines number) ∧
    ∀ line ∈ written.listing.lines, line.autoUnset →
      ∃ number value, line.Defines number value ∧ written.Defines number := by
  intro written
  obtain ⟨changes, scope, orderly⟩ : ∃ changes scope, written.Orderly changes scope :=
    Transcript.orderly_empty.run admits
  refine ⟨?_, ?_, ?_⟩
  · intro line listed name named
    obtain ⟨change, member, rfl⟩ := orderly.exists_change listed
    obtain ⟨number, known, same⟩ := orderly.writes.tempsIn_text member named
    exact ⟨number, same, orderly.defines known⟩
  · intro result member cell number held same
    rcases (orderly.results result member).held held with plain | ⟨other, known, temp⟩
    · rw [same] at plain
      exact absurd plain (SlotKey.not_plain_temp number)
    · obtain rfl : other = number := SlotKey.temp.inj (temp.symm.trans same)
      exact orderly.defines known
  · intro line listed unset
    obtain ⟨change, member, rfl⟩ := orderly.exists_change listed
    obtain ⟨temp, value, rfl, known⟩ := orderly.writes.exists_defining member unset
    exact ⟨temp.number, value.right, ⟨rfl, text_defining temp value⟩, orderly.defines known.2⟩

/-- The seventh power of `x`, which is written in two ways; a power that is refused; `y` modulo the seventh
power, in place; and a comparison. -/
def mixed : List Request :=
  [.power .shorter x 7, .power .shorter x (-1),
    .assignOp (.player "y") .mod (.computed ⟨4, .any⟩ [.pow 7]), .compare x .less (.ofLong 3)]
where
  x : Operand := .slot (.player "x")

theorem step_power_seven :
    Transcript.step {} (.power .shorter mixed.x 7) =
      { context := { temps := 4 }
        listing := { body := Draft.changeLines 0 (raising mixed.x ⟨4, .any⟩ 3 ++
          stage ⟨4, .any⟩ .div ⟨[], mixed.x, 4⟩) }
        results := [.computed ⟨4, .any⟩ [.pow 7]] } := by
  have lowered : (Request.power .shorter mixed.x 7).lowering =
      .ok (Emit.powerBy .shorter mixed.x 7 >>= fun operand => pure (some operand)) := rfl
  rw [Transcript.step_ok lowered, Emit.bind_apply, powerBy_seven]
  rfl

/-- Three temps are of the product that was not kept. The seventh power is in the fourth temp, and the last
change of `y` is by the fifteenth. -/
theorem temps_defined_once_mixed :
    Transcript.Admits {} mixed ∧ (Transcript.run mixed).context.temps = 15 ∧
      ((Transcript.run mixed).listing.lines.filter Line.autoUnset).length = 12 ∧
      (Transcript.run mixed).Defines 4 ∧ (Transcript.run mixed).Defines 15 := by
  have plain : mixed.x.Plain := by decide
  have target : (Operand.slot (.player "y")).Plain := by decide
  have admits : Transcript.Admits {} mixed := by
    refine ⟨?_, ?_⟩
    · exact List.forall_mem_singleton.mpr (.plain plain)
    rw [step_power_seven]
    refine ⟨List.forall_mem_singleton.mpr (.plain plain), ?_, ?_, trivial⟩
    · exact List.forall_mem_cons.mpr ⟨.plain target,
        List.forall_mem_singleton.mpr (.result List.mem_cons_self)⟩
    · exact List.forall_mem_cons.mpr ⟨.plain plain,
        List.forall_mem_singleton.mpr (.plain (Operand.plain_long 3))⟩
  obtain ⟨named, held, -⟩ := temps_defined_once admits
  have ran : Transcript.run mixed = (mixed.drop 1).foldl Transcript.step _ :=
    congrArg ((mixed.drop 1).foldl Transcript.step) step_power_seven
  refine ⟨admits, by rw [ran]; rfl, by rw [ran]; rfl, ?_, ?_⟩
  · exact held (.computed ⟨4, .any⟩ [.pow 7]) (by rw [ran]; exact List.mem_cons_self) _ 4 rfl rfl
  · have last : "_t15" ∈ tempsIn "stat y dec %stat.player/_t15%" := by decide
    obtain ⟨number, same, defines⟩ := named
      { text := "stat y dec %stat.player/_t15%", tag := .change .player } (by rw [ran]; decide) "_t15" last
    obtain rfl : number = 15 := SlotKey.temp_name_injective same.symm
    exact defines

end StatScript
