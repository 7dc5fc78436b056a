import StatScript.Proofs.Fitting.Health
import StatScript.Script

/-!
# The shape of a script

A script remembers which body is open and whether an `else` may follow. Here this is tied to what
stands in its containers: the current container stands in the open body, all others stand outside,
and an `else` may follow only the line that closed a first body.

Results:
1. `Listing.Stands`: the position behind a listing, with one lemma for each way to write in it.
2. `placed_write`, `placed_goto`: what holds of every container at its place still does when one is
   written or entered.
3. `Shaped.goto`, `Shaped.openIf`, `Shaped.openElse`, `Shaped.close` and the others: each statement
   keeps the shape of a script.
4. `Step.cases_line`: the cases of a step, where all steps that only write a line are one case.
5. `Shaped.apply`, `shaped_after`: each step keeps the shape, refused or not, and hence every history does.
-/

namespace StatScript

open Fitting (Position Steady Inert)

/-! ## Texts -/

theorem inert_openingLine (all : Bool) (conditions : List Condition) :
    Inert (Script.openingLine all conditions).text := by
  have tail : Text.Edged ") \x7b" := ⟨⟨')', rfl, rfl⟩, '\x7b', rfl, rfl⟩
  cases all with
  | true =>
      have lead : Text.Edged "if and (" := ⟨⟨'i', rfl, rfl⟩, '(', rfl, rfl⟩
      exact Fitting.inert_append _ (c := 'i') rfl (by decide) lead tail
  | false =>
      have lead : Text.Edged "if or (" := ⟨⟨'i', rfl, rfl⟩, '(', rfl, rfl⟩
      exact Fitting.inert_append _ (c := 'i') rfl (by decide) lead tail

theorem inert_closing : Inert Line.closing.text := by decide

/-- The line that ends a first body and starts the second. -/
def Line.reopening : Line := { text := "\x7d else \x7b", tag := .elseOpen }

theorem inert_reopening : Inert Line.reopening.text := by decide

theorem inert_headerLine (name : String) : Inert (Fitting.headerLine name).text :=
  Fitting.inert_append name (c := 'g') rfl (by decide) ⟨⟨'g', rfl, rfl⟩, '"', rfl, rfl⟩
    ⟨⟨'"', rfl, rfl⟩, '"', rfl, rfl⟩

/-! ## Listings -/

/-- The depth of a line at a position. -/
def Fitting.Position.depth : Position → Nat
  | outside => 0
  | firstBody | secondBody => 1

namespace Listing

/-- A listing behind which the position is `position`. No line of the preamble starts or ends
anything, so the position follows from the body. -/
structure Stands (listing : Listing) (position : Position) : Prop where
  preamble : ∀ line ∈ listing.preamble, line.tag.isPlain
  body : Position.outside.walk listing.body = some position
  steady : Steady listing.body
  indent : listing.indent = position.depth

/-- The last line closed a first body. -/
def Reopens (listing : Listing) : Prop :=
  ∃ lines indent, listing.body = lines ++ [{ Line.closing with indent }] ∧
    Position.outside.walk lines = some .firstBody

theorem stands_empty : Stands {} .outside :=
  ⟨nofun, rfl, nofun, rfl⟩

section Writing

variable {listing : Listing} {position : Position}

/-- Lines that lead from one position to the next may stand behind the body. -/
theorem Stands.extend {next : Position} {lines : List Line} (stands : listing.Stands position)
    (walk : position.walk lines = some next) (steady : Steady lines) (depth : Nat)
    (depth_eq : depth = next.depth) :
    Stands { listing with body := listing.body ++ lines, indent := depth } next where
  preamble := stands.preamble
  body := by simp [stands.body, walk]
  steady := List.forall_mem_append.mpr ⟨stands.steady, steady⟩
  indent := depth_eq

theorem Stands.pushAll {lines : List Line} (stands : listing.Stands position)
    (plain : ∀ line ∈ lines, line.tag.isPlain) : (listing.pushAll lines).Stands position := by
  have placed : ∀ line ∈ lines.map fun line => { line with indent := listing.indent },
      line.tag.isPlain := by
    intro line member
    obtain ⟨source, listed, rfl⟩ := List.mem_map.mp member
    exact plain source listed
  exact stands.extend (Fitting.walk_plain placed) (fun line member => .inl (placed line member))
    listing.indent stands.indent

theorem Stands.push {line : Line} (stands : listing.Stands position) (plain : line.tag.isPlain) :
    (listing.push line).Stands position :=
  stands.pushAll (List.forall_mem_singleton.mpr plain)

theorem Stands.pushPreamble {line : Line} (stands : listing.Stands position)
    (plain : line.tag.isPlain) : (listing.pushPreamble line).Stands position where
  preamble := List.forall_mem_append.mpr
    ⟨stands.preamble, List.forall_mem_singleton.mpr plain⟩
  body := stands.body
  steady := stands.steady
  indent := stands.indent

/-- A line that leads to another position. -/
theorem Stands.turn {next : Position} (stands : listing.Stands position) (line : Line)
    (step : position.step line.tag = some next) (inert : Inert line.text) (indent depth : Nat)
    (depth_eq : depth = next.depth) :
    Stands { listing with body := listing.body ++ [{ line with indent }], indent := depth } next := by
  have steady : Steady [{ line with indent }] := List.forall_mem_singleton.mpr (.inr inert)
  have walk : position.walk [{ line with indent }] = some next := by
    rw [Position.walk, step]
    rfl
  exact stands.extend walk steady depth depth_eq

/-- A conditional may be opened only outside. -/
theorem Stands.openIf (stands : listing.Stands .outside) (all : Bool)
    (conditions : List Condition) :
    ((listing.push (Script.openingLine all conditions)).deepen).Stands .firstBody := by
  refine stands.turn _ ?_ (inert_openingLine all conditions) listing.indent (listing.indent + 1) ?_
  · cases all <;> rfl
  · rw [stands.indent]
    rfl

/-- The line that closes a body stands at the depth of the line that opened it. -/
theorem Stands.close {tag : Tag} (stands : listing.Stands position)
    (inside : position ≠ .outside) (closes : tag.closes) :
    (listing.raise.push { Line.closing with tag }).Stands .outside := by
  refine stands.turn { Line.closing with tag } ?_ inert_closing (listing.indent - 1)
    (listing.indent - 1) ?_
  · cases tag <;> cases closes <;> cases position <;> first | rfl | exact absurd rfl inside
  · rw [stands.indent]
    cases position <;> rfl

/-- Outside conditionals, a line that closed a body is replaced by the one that starts the next. -/
theorem fuse_closing {lines : List Line} {depth : Nat}
    (body : listing.body = lines ++ [{ Line.closing with indent := depth }]) (outside : listing.indent = 0) :
    listing.fuse " else \x7b" .elseOpen =
      .ok { listing with body := lines ++ [{ Line.reopening with indent := depth }] } := by
  have last : listing.lines.getLast? = some { Line.closing with indent := depth } := by
    simp [Listing.lines, body]
  have nonempty : listing.body ≠ [] := by simp [body]
  have fused : listing.setLast { Line.reopening with indent := depth } =
      { listing with body := lines ++ [{ Line.reopening with indent := depth }] } := by
    rw [Listing.setLast, if_neg nonempty, body, List.dropLast_concat]
  rw [Listing.fuse, last, ← fused]
  exact if_pos ⟨rfl, outside⟩

/-- A second body is opened by the line that closed the first, which is there to be fused. -/
theorem Stands.openElse (stands : listing.Stands .outside) (reopens : listing.Reopens) :
    ∃ fused, listing.fuse " else \x7b" .elseOpen = .ok fused ∧ fused.deepen.Stands .secondBody := by
  obtain ⟨lines, indent, body, walk⟩ := reopens
  refine ⟨_, fuse_closing body stands.indent, stands.preamble, ?_, ?_, ?_⟩
  · show Position.outside.walk (lines ++ _) = _
    rw [Fitting.walk_append, walk]
    rfl
  · have steady := stands.steady
    rw [body] at steady
    exact List.forall_mem_append.mpr ⟨(List.forall_mem_append.mp steady).1,
      List.forall_mem_singleton.mpr (.inr inert_reopening)⟩
  · show listing.indent + 1 = 1
    rw [stands.indent]
    rfl

theorem Stands.reopens (stands : listing.Stands .firstBody) :
    (listing.raise.push Line.closing).Reopens :=
  ⟨listing.body, listing.indent - 1, rfl, stands.body⟩

end Writing

end Listing

/-- The position in an open body, if one is open. -/
def Branch.position : Option Branch → Position
  | none => .outside
  | some .first => .firstBody
  | some .second => .secondBody

theorem Branch.position_ne_outside (branch : Branch) : position (some branch) ≠ .outside := by
  cases branch <;> decide

namespace Script

/-! ## Containers -/

section Containers

variable {entries : List (Option String × Container)} {name : Option String}

/-- The names stay in their order, and a new one comes last. -/
theorem names_putContainer (name : Option String) (container : Container)
    (entries : List (Option String × Container)) :
    (putContainer name container entries).map Prod.fst =
      if name ∈ entries.map Prod.fst then entries.map Prod.fst
      else entries.map Prod.fst ++ [name] := by
  induction entries with
  | nil => rfl
  | cons entry rest ih =>
      obtain ⟨other, old⟩ := entry
      rw [putContainer]
      by_cases same : other = name
      · simp [same]
      · rw [if_neg same, List.map_cons, ih]
        simp only [List.map_cons, List.mem_cons, Ne.symm same, false_or]
        split <;> rfl

theorem nodup_names_putContainer (container : Container) (names : (entries.map Prod.fst).Nodup) :
    ((putContainer name container entries).map Prod.fst).Nodup := by
  rw [names_putContainer]
  split
  · exact names
  · next fresh =>
      refine List.nodup_append.mpr ⟨names, List.pairwise_singleton _ _, ?_⟩
      intro other listed last single
      rw [List.mem_singleton.mp single]
      rintro rfl
      exact fresh listed

/-- The containers with other names stay. -/
theorem mem_putContainer {container : Container} {entry : Option String × Container}
    (names : (entries.map Prod.fst).Nodup) (member : entry ∈ putContainer name container entries) :
    entry = (name, container) ∨ entry ∈ entries ∧ entry.1 ≠ name := by
  induction entries with
  | nil => exact .inl (List.mem_singleton.mp member)
  | cons first rest ih =>
      obtain ⟨other, old⟩ := first
      obtain ⟨unlisted, names⟩ := List.nodup_cons.mp names
      rw [putContainer] at member
      split at member
      · next same =>
          refine (List.mem_cons.mp member).imp_right fun behind => ?_
          refine ⟨List.mem_cons_of_mem _ behind, fun again => unlisted ?_⟩
          rw [same, ← again]
          exact List.mem_map.mpr ⟨entry, behind, rfl⟩
      · next differs =>
          rcases List.mem_cons.mp member with rfl | member
          · exact .inr ⟨List.mem_cons_self, differs⟩
          · exact (ih names member).imp_right (And.imp_left (List.mem_cons_of_mem _))

theorem mem_of_lookup {container : Container} (found : entries.lookup name = some container) :
    (name, container) ∈ entries := by
  obtain ⟨before, after, rfl, -⟩ := List.lookup_eq_some_iff.mp found
  exact List.mem_append_right _ List.mem_cons_self

theorem mem_active {script : Script} (listed : script.current ∈ script.containers.map Prod.fst) :
    (script.current, script.active) ∈ script.containers := by
  obtain ⟨entry, member, same⟩ := List.mem_map.mp listed
  cases found : script.containers.lookup script.current with
  | none => simpa [same] using List.lookup_eq_none_iff.mp found entry member
  | some container =>
      rw [active, found]
      exact mem_of_lookup found

end Containers

/-! ## What statements lead to -/

section Outcomes

variable {script next : Script}

/-- A declaration writes no lines. -/
theorem declare_eq_ok {slot : Slot} (written : (script.declare slot).map Prod.snd = .ok next) :
    ∃ context, next = { script with context } := by
  unfold Script.declare at written
  cases result : script.context.declare slot with
  | error error =>
      rw [result] at written
      cases written
  | ok value =>
      rw [result] at written
      cases written
      exact ⟨_, rfl⟩

theorem goto_eq_ok {name : String} (written : script.goto name = .ok next) :
    script.branch = none ∧ next = ({ script.withdrawElse with current := some name } : Script).setActive
      ((script.containers.lookup (some name)).getD {}) := by
  unfold goto at written
  cases closed : script.branch with
  | some branch =>
      rw [closed] at written
      cases written
  | none =>
      rw [closed] at written
      exact ⟨rfl, (Except.ok.inj written).symm⟩

theorem openIf_eq_ok {all : Bool} {conditions : List Condition}
    (written : script.openIf all conditions = .ok next) :
    script.branch = none ∧ next =
      { (script.setListing (script.listing.push (openingLine all conditions)).deepen).withdrawElse with
        branch := some .first } := by
  unfold openIf at written
  cases closed : script.branch with
  | some branch =>
      rw [closed] at written
      cases written
  | none =>
      rw [closed] at written
      exact ⟨rfl, (Except.ok.inj written).symm⟩

theorem openElse_eq_ok (written : script.openElse = .ok next) :
    (script.branch = none ∧ script.elseAllowed) ∧
      ∃ fused, script.listing.fuse " else \x7b" .elseOpen = .ok fused ∧
        next = { (script.setListing fused.deepen).withdrawElse with branch := some .second } := by
  unfold openElse at written
  split at written
  · next admitted =>
      cases result : script.listing.fuse " else \x7b" .elseOpen with
      | error error =>
          rw [result] at written
          cases written
      | ok fused =>
          rw [result] at written
          exact ⟨admitted, fused, rfl, (Except.ok.inj written).symm⟩
  · cases written

theorem close_eq_ok (written : script.close = .ok next) :
    ∃ branch, script.branch = some branch ∧ next =
      { script.setListing (script.listing.raise.push
          { Line.closing with tag := if branch = .first then .close else .elseClose }) with
        branch := none
        elseAllowed := branch = .first } := by
  unfold close at written
  cases opened : script.branch with
  | none =>
      rw [opened] at written
      cases written
  | some branch =>
      rw [opened] at written
      exact ⟨branch, rfl, (Except.ok.inj written).symm⟩

end Outcomes

/-! ## Scripts -/

/-- The position behind the container with a given name. -/
def place (script : Script) (name : Option String) : Position :=
  if name = script.current then Branch.position script.branch else .outside

section Places

variable {script next : Script} {motive : Listing → Position → Prop}

/-- The current container stands in the open body. -/
theorem listing_of_placed (known : script.current ∈ script.containers.map Prod.fst)
    (placed : ∀ entry ∈ script.containers, motive entry.2.listing (script.place entry.1)) :
    motive script.listing (Branch.position script.branch) := by
  have active := placed _ (mem_active known)
  rwa [place, if_pos rfl] at active

/-- All containers stand outside while no conditional is open. -/
theorem outside_of_placed (closed : script.branch = none)
    (placed : ∀ entry ∈ script.containers, motive entry.2.listing (script.place entry.1)) :
    ∀ entry ∈ script.containers, motive entry.2.listing .outside := by
  intro entry member
  have here := placed entry member
  rwa [place, closed, Branch.position, ite_self] at here

section Write

variable {container : Container}
  (containers : next.containers = putContainer script.current container script.containers)

include containers

theorem names_write (known : script.current ∈ script.containers.map Prod.fst) :
    next.containers.map Prod.fst = script.containers.map Prod.fst := by
  rw [containers, names_putContainer, if_pos known]

theorem listing_write (current : next.current = script.current) : next.listing = container.listing := by
  simp [Script.listing, active, containers, current]

/-- Only the current container is written, and all others stay outside. -/
theorem placed_write (names : (script.containers.map Prod.fst).Nodup)
    (placed : ∀ entry ∈ script.containers, motive entry.2.listing (script.place entry.1))
    (current : next.current = script.current)
    (written : motive container.listing (Branch.position next.branch)) :
    ∀ entry ∈ next.containers, motive entry.2.listing (next.place entry.1) := by
  intro entry member
  rw [containers] at member
  rcases mem_putContainer names member with rfl | ⟨member, other⟩
  · rw [place, if_pos current.symm]
    exact written
  · have untouched := placed entry member
    rw [place, if_neg other] at untouched
    rwa [place, current, if_neg other]

end Write

section Goto

variable {name : String} (written : script.goto name = .ok next)

include written

theorem current_goto : next.current ∈ next.containers.map Prod.fst := by
  obtain ⟨-, rfl⟩ := goto_eq_ok written
  exact List.mem_map.mpr ⟨_, mem_of_lookup (lookup_putContainer _ _ _), rfl⟩

/-- A container that is entered again stands where it was left, and a new one is empty. -/
theorem placed_goto (names : (script.containers.map Prod.fst).Nodup)
    (placed : ∀ entry ∈ script.containers, motive entry.2.listing (script.place entry.1))
    (empty : motive {} .outside) :
    ∀ entry ∈ next.containers, motive entry.2.listing (next.place entry.1) := by
  obtain ⟨closed, rfl⟩ := goto_eq_ok written
  have outside := outside_of_placed closed placed
  have entered : motive ((script.containers.lookup (some name)).getD {}).listing .outside := by
    cases found : script.containers.lookup (some name) with
    | none => exact empty
    | some container => exact outside _ (mem_of_lookup found)
  intro entry member
  rw [place]
  show motive entry.2.listing (if _ then Branch.position script.branch else _)
  rw [closed, Branch.position, ite_self]
  rcases mem_putContainer names member with rfl | ⟨member, -⟩
  · exact entered
  · exact outside entry member

end Goto

end Places

/-- A script whose containers agree with what it remembers. Each container has a name of its own,
and the first has none. -/
structure Shaped (script : Script) : Prop where
  names : (script.containers.map Prod.fst).Nodup
  first : (script.containers.map Prod.fst).head? = some none
  current : script.current ∈ script.containers.map Prod.fst
  stands : ∀ entry ∈ script.containers, entry.2.listing.Stands (script.place entry.1)
  elseAllowed : script.elseAllowed → script.branch = none ∧ script.listing.Reopens

theorem shaped_new (limits : Limits) : (new limits).Shaped where
  names := List.pairwise_singleton _ _
  first := rfl
  current := List.mem_cons_self
  stands := List.forall_mem_singleton.mpr Listing.stands_empty
  elseAllowed := nofun

section Statements

variable {script next : Script}

/-- The current container stands in the open body. -/
theorem Shaped.listing (shaped : script.Shaped) :
    script.listing.Stands (Branch.position script.branch) :=
  listing_of_placed (motive := Listing.Stands) shaped.current shaped.stands

/-- All containers stand outside while no conditional is open. -/
theorem Shaped.outside (shaped : script.Shaped) (closed : script.branch = none) :
    ∀ entry ∈ script.containers, entry.2.listing.Stands .outside :=
  outside_of_placed (motive := Listing.Stands) closed shaped.stands

/-- Only the current container is written, and its new listing has to agree with what the script
remembers then. -/
theorem Shaped.write {container : Container} (shaped : script.Shaped)
    (containers : next.containers = putContainer script.current container script.containers)
    (current : next.current = script.current)
    (stands : container.listing.Stands (Branch.position next.branch))
    (elseAllowed : next.elseAllowed → next.branch = none ∧ container.listing.Reopens) :
    next.Shaped := by
  have names := names_write containers shaped.current
  refine ⟨names ▸ shaped.names, names ▸ shaped.first, ?_, ?_, ?_⟩
  · rw [names, current]
    exact shaped.current
  · exact placed_write (motive := Listing.Stands) containers shaped.names shaped.stands current stands
  · rw [listing_write containers current]
    exact elseAllowed

theorem Shaped.withdrawElse (shaped : script.Shaped) : script.withdrawElse.Shaped :=
  ⟨shaped.names, shaped.first, shaped.current, shaped.stands, nofun⟩

theorem Shaped.declare {slot : Slot} (shaped : script.Shaped)
    (written : (script.declare slot).map Prod.snd = .ok next) : next.Shaped := by
  obtain ⟨context, rfl⟩ := declare_eq_ok written
  exact ⟨shaped.names, shaped.first, shaped.current, shaped.stands, shaped.elseAllowed⟩

theorem Shaped.lower {α : Type} (shaped : script.Shaped)
    (lowering : Except LoweringError (Emit α)) : (script.lower lowering).2.Shaped := by
  cases lowering with
  | error error => exact shaped.withdrawElse
  | ok emit =>
      refine shaped.withdrawElse.write rfl rfl (shaped.listing.pushAll ?_) nofun
      intro line member
      obtain ⟨change, -, rfl⟩ := List.mem_map.mp member
      rfl

theorem Shaped.emit {line : Line} (shaped : script.Shaped) (plain : line.tag.isPlain) :
    (script.emit line).Shaped :=
  shaped.withdrawElse.write rfl rfl (shaped.listing.push plain) nofun

theorem Shaped.preamble {line : Line} (shaped : script.Shaped) (plain : line.tag.isPlain) :
    (script.preamble line).Shaped :=
  shaped.write rfl rfl (shaped.listing.pushPreamble plain) shaped.elseAllowed

theorem Shaped.checkpoint (shaped : script.Shaped) : script.checkpoint.2.Shaped :=
  shaped.write rfl rfl shaped.listing shaped.elseAllowed

theorem Shaped.goto {name : String} (shaped : script.Shaped)
    (written : script.goto name = .ok next) : next.Shaped := by
  have known := current_goto written
  have stands := placed_goto (motive := Listing.Stands) written shaped.names shaped.stands Listing.stands_empty
  obtain ⟨closed, rfl⟩ := goto_eq_ok written
  refine ⟨nodup_names_putContainer _ shaped.names, ?_, known, stands, nofun⟩
  · show ((putContainer _ _ script.containers).map Prod.fst).head? = some none
    rw [names_putContainer]
    split
    · exact shaped.first
    · rw [List.head?_append, shaped.first]
      rfl

theorem Shaped.openIf {all : Bool} {conditions : List Condition} (shaped : script.Shaped)
    (written : script.openIf all conditions = .ok next) : next.Shaped := by
  obtain ⟨closed, rfl⟩ := openIf_eq_ok written
  have stands := shaped.listing
  rw [closed] at stands
  exact shaped.write rfl rfl (stands.openIf all conditions) nofun

/-- Where an `else` is allowed, it is written. -/
theorem Shaped.openElse_eq_ok (shaped : script.Shaped) (allowed : script.elseAllowed) :
    ∃ next, script.openElse = .ok next ∧ next.Shaped := by
  obtain ⟨closed, reopens⟩ := shaped.elseAllowed allowed
  have stands := shaped.listing
  rw [closed] at stands
  obtain ⟨fused, written, stands⟩ := stands.openElse reopens
  refine ⟨_, by rw [Script.openElse, if_pos ⟨closed, allowed⟩, written]; rfl, ?_⟩
  exact shaped.write rfl rfl stands nofun

theorem Shaped.openElse (shaped : script.Shaped) (written : script.openElse = .ok next) :
    next.Shaped := by
  by_cases allowed : script.elseAllowed
  · obtain ⟨next', written', shaped⟩ := shaped.openElse_eq_ok allowed
    rw [written'] at written
    obtain rfl := Except.ok.inj written
    exact shaped
  · rw [Script.openElse, if_neg fun ⟨_, ok⟩ => allowed ok] at written
    cases written

theorem Shaped.close (shaped : script.Shaped) (written : script.close = .ok next) :
    next.Shaped := by
  obtain ⟨branch, opened, rfl⟩ := close_eq_ok written
  have stands := shaped.listing
  rw [opened] at stands
  refine shaped.write rfl rfl (stands.close branch.position_ne_outside ?_) fun allowed => ?_
  · cases branch <;> rfl
  · obtain rfl : branch = .first := of_decide_eq_true allowed
    exact ⟨rfl, stands.reopens⟩

end Statements

/-! ## Histories -/

/-- One step in the writing of a script. -/
inductive Step : Type 1 where
  | declare (slot : Slot)
  | lower {α : Type} (lowering : Except LoweringError (Emit α))
  | compare (left : Operand) (comparison : Comparison) (right : Operand)
  | goto (name : String)
  | openIf (all : Bool) (conditions : List Condition)
  | openElse
  | close
  | call (name : String)
  | exit
  | cancel
  | comment (text : String)
  | note (parts : List Operand)
  | maxHealth (amount : Int64)
  | fullHeal
  | emit (line : Line)
  | preamble (line : Line)
  | checkpoint

/-- The script that a statement leads to, or the old one where the statement is refused. -/
def attempt {ε : Type} (script : Script) : Except ε Script → Script
  | .ok next => next
  | .error _ => script

/-- The script behind a step. -/
def Step.apply (script : Script) : Step → Script
  | declare slot => script.attempt ((script.declare slot).map Prod.snd)
  | lower lowering => (script.lower lowering).2
  | compare left comparison right => (script.compare left comparison right).2
  | goto name => script.attempt (script.goto name)
  | openIf all conditions => script.attempt (script.openIf all conditions)
  | openElse => script.attempt script.openElse
  | close => script.attempt script.close
  | call name => script.call name
  | exit => script.exit
  | cancel => script.cancel
  | comment text => script.comment text
  | note parts => script.note parts
  | maxHealth amount => script.maxHealth amount
  | fullHeal => script.fullHeal
  | emit line => script.emit line
  | preamble line => script.preamble line
  | checkpoint => script.checkpoint.2

/-- A line that is written as it is may neither start nor end anything. -/
def Step.Plain : Step → Prop
  | emit line | preamble line => line.tag.isPlain
  | _ => True

/-- The line that a step writes, if that is all it does. -/
def Step.line? : Step → Option Line
  | call name => some (Fitting.callLine name)
  | exit => some exitLine
  | cancel => some cancelLine
  | comment text => some (commentLine text)
  | note parts => some (noteLine parts)
  | maxHealth amount => some (maxHealthLine amount)
  | fullHeal => some fullHealLine
  | emit line => some line
  | _ => none

namespace Step

variable {step : Step} {line : Line}

theorem apply_of_line? (writes : step.line? = some line) (script : Script) :
    step.apply script = script.emit line := by
  cases step <;> cases writes <;> rfl

theorem isPlain_of_line? (plain : step.Plain) (writes : step.line? = some line) : line.tag.isPlain := by
  cases step <;> cases writes <;> first | rfl | exact plain

/-- The cases of a step, with all steps that only write a line as one. -/
@[elab_as_elim]
theorem cases_line {motive : Step → Prop} (step : Step)
    (written : ∀ step line, line? step = some line → motive step)
    (declare : ∀ slot, motive (declare slot))
    (lower : ∀ {α : Type} (lowering : Except LoweringError (Emit α)), motive (lower lowering))
    (compare : ∀ left comparison right, motive (compare left comparison right))
    (goto : ∀ name, motive (goto name))
    (openIf : ∀ all conditions, motive (openIf all conditions))
    (openElse : motive openElse)
    (close : motive close)
    (preamble : ∀ line, motive (preamble line))
    (checkpoint : motive checkpoint) : motive step := by
  cases step with
  | declare slot => exact declare slot
  | lower lowering => exact lower lowering
  | compare left comparison right => exact compare left comparison right
  | goto name => exact goto name
  | openIf all conditions => exact openIf all conditions
  | openElse => exact openElse
  | close => exact close
  | preamble line => exact preamble line
  | checkpoint => exact checkpoint
  | call | exit | cancel | comment | note | maxHealth | fullHeal | emit => exact written _ _ rfl

end Step

/-- The script behind a history. -/
def after (limits : Limits) (steps : List Step) : Script :=
  steps.foldl Step.apply (new limits)

/-- What holds of a script and of the one that a statement leads to holds behind the statement. -/
theorem attempt_intro {ε : Type} {motive : Script → Prop} {script : Script} {result : Except ε Script}
    (kept : motive script) (written : ∀ {next}, result = .ok next → motive next) :
    motive (script.attempt result) := by
  cases result with
  | error error => exact kept
  | ok next => exact written rfl

theorem Shaped.apply {script : Script} {step : Step} (shaped : script.Shaped)
    (plain : step.Plain) : (step.apply script).Shaped := by
  cases step using Step.cases_line with
  | written step line writes =>
      rw [Step.apply_of_line? writes]
      exact shaped.emit (Step.isPlain_of_line? plain writes)
  | declare slot => exact attempt_intro (motive := Shaped) shaped shaped.declare
  | lower lowering => exact shaped.lower lowering
  | compare left comparison right => exact shaped.withdrawElse
  | goto name => exact attempt_intro (motive := Shaped) shaped shaped.goto
  | openIf all conditions => exact attempt_intro (motive := Shaped) shaped shaped.openIf
  | openElse => exact attempt_intro (motive := Shaped) shaped shaped.openElse
  | close => exact attempt_intro (motive := Shaped) shaped shaped.close
  | preamble line => exact shaped.preamble plain
  | checkpoint => exact shaped.checkpoint

/-- Every history leads to a script of this shape. -/
theorem shaped_after (limits : Limits) {steps : List Step} (plain : ∀ step ∈ steps, step.Plain) :
    (after limits steps).Shaped :=
  List.foldlRecOn steps Step.apply (shaped_new limits)
    fun _ shaped step member => shaped.apply (plain step member)

end Script

end StatScript
