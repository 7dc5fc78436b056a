import StatScript.Proofs.Script.Finishing

/-!
# Indentation

A listing counts the depth of its next line while conditionals are opened and closed, and a line keeps the depth
at which it was written. The depth also follows from the tags of all lines behind one another. There it starts
anew at each header, so a conditional that is still open in one container does not reach into the next. Both ways
to find the depth agree.

Results:
1. `Line.reindentFrom_append`, `Line.depthBehind_of_walk`: depths behind other lines follow from the position there.
2. `Listing.Aligned.extend`, `Listing.Aligned.openElse` and the others: each way to write in a listing leaves every
   line at the depth of its tag.
3. `Aligned.apply`, `aligned_after`: so does each step, refused or not, and hence every history.
4. `reindent_lines_eq_self`: finding the depths of all lines anew changes none, and the depth counted in a
   container is the one behind its lines.
-/

namespace StatScript

open Fitting (Position)

namespace Line

/-! ## Depths of lines -/

/-- The depth behind lines, at depth `depth` before them. -/
def depthBehind (depth : Nat) (lines : List Line) : Nat :=
  lines.foldl (fun depth line => depthAfter depth line.tag) depth

@[simp]
theorem reindentFrom_append (depth : Nat) (first second : List Line) :
    reindentFrom depth (first ++ second) =
      reindentFrom depth first ++ reindentFrom (depthBehind depth first) second := by
  induction first generalizing depth with
  | nil => rfl
  | cons line rest ih => exact congrArg (_ :: ·) (ih _)

theorem depthAfter_of_step {position next : Position} {tag : Tag} (stepped : position.step tag = some next) :
    depthAfter position.depth tag = next.depth := by
  cases tag <;> cases position <;> cases stepped <;> rfl

/-- The depth behind lines is that of the position behind them. -/
theorem depthBehind_of_walk {position next : Position} {lines : List Line}
    (walked : position.walk lines = some next) : depthBehind position.depth lines = next.depth := by
  induction lines generalizing position with
  | nil =>
      cases walked
      rfl
  | cons line rest ih =>
      obtain ⟨middle, stepped, walked⟩ := Option.bind_eq_some_iff.mp walked
      rw [depthBehind, List.foldl_cons, depthAfter_of_step stepped]
      exact ih walked

theorem depthOf_plain {tag : Tag} (plain : tag.isPlain) (depth : Nat) :
    depthOf depth tag = depth ∧ depthAfter depth tag = depth := by
  cases tag <;> first | exact ⟨rfl, rfl⟩ | cases plain

/-- Lines that neither start nor end anything all stand at one depth. -/
theorem reindentFrom_plain {depth : Nat} {lines : List Line} (plain : ∀ line ∈ lines, line.tag.isPlain)
    (placed : ∀ line ∈ lines, line.indent = depth) : reindentFrom depth lines = lines := by
  induction lines with
  | nil => rfl
  | cons line rest ih =>
      obtain ⟨here, after⟩ := depthOf_plain (plain line List.mem_cons_self) depth
      rw [reindentFrom, here, after, ih (List.forall_mem_of_forall_mem_cons plain)
        (List.forall_mem_of_forall_mem_cons placed), ← placed line List.mem_cons_self]

theorem reindentFrom_singleton {depth : Nat} {line : Line} (placed : line.indent = depthOf depth line.tag) :
    reindentFrom depth [line] = [line] := by
  rw [reindentFrom, ← placed]
  rfl

end Line

namespace Listing

/-! ## Listings -/

/-- A listing in which each line stands at the depth of its tag. -/
structure Aligned (listing : Listing) : Prop where
  preamble : ∀ line ∈ listing.preamble, line.indent = 0
  body : Line.reindent listing.body = listing.body

theorem aligned_empty : Aligned {} :=
  ⟨nofun, rfl⟩

section Writing

variable {listing : Listing} {position : Position}

/-- Lines at the depths of their tags may stand behind the body, whatever the next depth is. -/
theorem Aligned.extend {lines : List Line} (aligned : listing.Aligned) (stands : listing.Stands position)
    (placed : Line.reindentFrom position.depth lines = lines) (indent : Nat) :
    Aligned { listing with body := listing.body ++ lines, indent } where
  preamble := aligned.preamble
  body := by
    have body : Line.reindentFrom 0 listing.body = listing.body := aligned.body
    have depth : Line.depthBehind 0 listing.body = position.depth := Line.depthBehind_of_walk stands.body
    simp [Line.reindent, depth, body, placed]

theorem Aligned.pushAll {lines : List Line} (aligned : listing.Aligned) (stands : listing.Stands position)
    (plain : ∀ line ∈ lines, line.tag.isPlain) : (listing.pushAll lines).Aligned := by
  refine aligned.extend stands (Line.reindentFrom_plain ?_ ?_) listing.indent
  · exact List.forall_mem_map.mpr plain
  · exact List.forall_mem_map.mpr fun _ _ => stands.indent

theorem Aligned.push {line : Line} (aligned : listing.Aligned) (stands : listing.Stands position)
    (plain : line.tag.isPlain) : (listing.push line).Aligned :=
  aligned.pushAll stands (List.forall_mem_singleton.mpr plain)

theorem Aligned.pushPreamble (aligned : listing.Aligned) (line : Line) : (listing.pushPreamble line).Aligned where
  preamble := List.forall_mem_append.mpr ⟨aligned.preamble, List.forall_mem_singleton.mpr rfl⟩
  body := aligned.body

/-- The line that opens a conditional still stands at the depth before it. -/
theorem Aligned.openIf (aligned : listing.Aligned) (stands : listing.Stands position) (all : Bool)
    (conditions : List Condition) : ((listing.push (Script.openingLine all conditions)).deepen).Aligned := by
  refine aligned.extend stands (Line.reindentFrom_singleton ?_) (listing.indent + 1)
  cases all <;> exact stands.indent

/-- The line that closes a body stands at the depth of the line that opened it. -/
theorem Aligned.close {tag : Tag} (aligned : listing.Aligned) (stands : listing.Stands position)
    (closes : tag.closes) : (listing.raise.push { Line.closing with tag }).Aligned := by
  refine aligned.extend stands (Line.reindentFrom_singleton ?_) (listing.indent - 1)
  show listing.indent - 1 = Line.depthOf position.depth tag
  rw [stands.indent]
  cases tag <;> cases closes <;> rfl

/-- A line that closes a first body and one that starts the second stand at the same depth, so the depth of the
fused line is right as it is. -/
theorem Aligned.openElse {lines : List Line} {depth : Nat} (aligned : listing.Aligned)
    (body : listing.body = lines ++ [{ Line.closing with indent := depth }]) (indent : Nat) :
    Aligned { listing with body := lines ++ [{ Line.reopening with indent := depth }], indent } where
  preamble := aligned.preamble
  body := by
    have placed : Line.reindentFrom 0 listing.body = listing.body := aligned.body
    rw [body, Line.reindentFrom_append] at placed
    obtain ⟨before, last⟩ := List.append_inj' placed rfl
    have depth_eq : Line.depthBehind 0 lines - 1 = depth := congrArg Line.indent (List.cons.inj last).1
    rw [Line.reindent, Line.reindentFrom_append, before, Line.reindentFrom_singleton depth_eq.symm]

end Writing

end Listing

namespace Script

/-! ## Scripts -/

/-- A script in whose containers each line stands at the depth of its tag. -/
def Aligned (script : Script) : Prop :=
  ∀ entry ∈ script.containers, entry.2.listing.Aligned

theorem aligned_new (limits : Limits) : (new limits).Aligned :=
  List.forall_mem_singleton.mpr Listing.aligned_empty

section Statements

variable {script next : Script}

theorem Aligned.listing (aligned : script.Aligned) (shaped : script.Shaped) : script.listing.Aligned :=
  aligned _ (mem_active shaped.current)

/-- Only the container `name` is written. -/
theorem Aligned.write {name : Option String} {container : Container} (aligned : script.Aligned)
    (shaped : script.Shaped) (containers : next.containers = putContainer name container script.containers)
    (written : container.listing.Aligned) : next.Aligned := by
  intro entry member
  rw [containers] at member
  rcases mem_putContainer shaped.names member with rfl | ⟨member, -⟩
  · exact written
  · exact aligned entry member

theorem Aligned.declare {slot : Slot} (aligned : script.Aligned)
    (written : (script.declare slot).map Prod.snd = .ok next) : next.Aligned := by
  obtain ⟨context, rfl⟩ := declare_eq_ok written
  exact aligned

theorem Aligned.lower {α : Type} (aligned : script.Aligned) (shaped : script.Shaped)
    (lowering : Except LoweringError (Emit α)) : (script.lower lowering).2.Aligned := by
  cases lowering with
  | error error => exact aligned
  | ok emit =>
      refine aligned.write shaped rfl ((aligned.listing shaped).pushAll shaped.listing ?_)
      exact List.forall_mem_map.mpr fun _ _ => rfl

theorem Aligned.emit {line : Line} (aligned : script.Aligned) (shaped : script.Shaped)
    (plain : line.tag.isPlain) : (script.emit line).Aligned :=
  aligned.write shaped rfl ((aligned.listing shaped).push shaped.listing plain)

theorem Aligned.preamble (aligned : script.Aligned) (shaped : script.Shaped) (line : Line) :
    (script.preamble line).Aligned :=
  aligned.write shaped rfl ((aligned.listing shaped).pushPreamble line)

theorem Aligned.checkpoint (aligned : script.Aligned) (shaped : script.Shaped) : script.checkpoint.2.Aligned :=
  aligned.write shaped rfl (aligned.listing shaped)

theorem Aligned.goto {name : String} (aligned : script.Aligned) (shaped : script.Shaped)
    (written : script.goto name = .ok next) : next.Aligned := by
  obtain ⟨closed, rfl⟩ := goto_eq_ok written
  refine aligned.write shaped rfl ?_
  show ((script.containers.lookup (some name)).getD {}).listing.Aligned
  cases found : script.containers.lookup (some name) with
  | none => exact Listing.aligned_empty
  | some container => exact aligned _ (mem_of_lookup found)

theorem Aligned.openIf {all : Bool} {conditions : List Condition} (aligned : script.Aligned)
    (shaped : script.Shaped) (written : script.openIf all conditions = .ok next) : next.Aligned := by
  obtain ⟨closed, rfl⟩ := openIf_eq_ok written
  exact aligned.write shaped rfl ((aligned.listing shaped).openIf shaped.listing all conditions)

theorem Aligned.openElse (aligned : script.Aligned) (shaped : script.Shaped)
    (written : script.openElse = .ok next) : next.Aligned := by
  obtain ⟨admitted, fused, result, rfl⟩ := openElse_eq_ok written
  obtain ⟨-, lines, depth, body, -⟩ := shaped.elseAllowed admitted.2
  have stands := shaped.listing
  rw [admitted.1] at stands
  obtain rfl := Except.ok.inj (result.symm.trans (Listing.fuse_closing body stands.indent))
  exact aligned.write shaped rfl ((aligned.listing shaped).openElse body _)

theorem Aligned.close (aligned : script.Aligned) (shaped : script.Shaped) (written : script.close = .ok next) :
    next.Aligned := by
  obtain ⟨branch, opened, rfl⟩ := close_eq_ok written
  refine aligned.write shaped rfl ((aligned.listing shaped).close shaped.listing ?_)
  cases branch <;> rfl

theorem Aligned.apply {step : Step} (aligned : script.Aligned) (shaped : script.Shaped) (plain : step.Plain) :
    (step.apply script).Aligned := by
  cases step using Step.cases_line with
  | written step line writes =>
      rw [Step.apply_of_line? writes]
      exact aligned.emit shaped (Step.isPlain_of_line? plain writes)
  | declare slot => exact attempt_intro (motive := Aligned) aligned aligned.declare
  | lower lowering => exact aligned.lower shaped lowering
  | compare left comparison right => exact aligned
  | goto name => exact attempt_intro (motive := Aligned) aligned (aligned.goto shaped)
  | openIf all conditions => exact attempt_intro (motive := Aligned) aligned (aligned.openIf shaped)
  | openElse => exact attempt_intro (motive := Aligned) aligned (aligned.openElse shaped)
  | close => exact attempt_intro (motive := Aligned) aligned (aligned.close shaped)
  | preamble line => exact aligned.preamble shaped line
  | checkpoint => exact aligned.checkpoint shaped

end Statements

theorem aligned_after (limits : Limits) {steps : List Step} (plain : ∀ step ∈ steps, step.Plain) :
    (after limits steps).Aligned :=
  (List.foldlRecOn (motive := fun script => script.Shaped ∧ script.Aligned) steps Step.apply
    ⟨shaped_new limits, aligned_new limits⟩ fun _ ⟨shaped, aligned⟩ step member =>
      ⟨shaped.apply (plain step member), aligned.apply shaped (plain step member)⟩).2

/-! ## Containers behind one another -/

section Entries

variable {entry : Option String × Container} {position : Position}

/-- The lines of a container by themselves. A header stands at depth zero like the first line of a program. -/
theorem reindent_containerLines (stands : entry.2.listing.Stands position) (aligned : entry.2.listing.Aligned) :
    Line.reindent (containerLines entry) = containerLines entry := by
  obtain ⟨name, container⟩ := entry
  have lines : Line.reindentFrom 0 container.listing.lines = container.listing.lines := by
    have preamble : Line.reindentFrom 0 container.listing.preamble = container.listing.preamble :=
      Line.reindentFrom_plain stands.preamble aligned.preamble
    have walked : Position.outside.walk container.listing.preamble = some .outside :=
      Fitting.walk_plain stands.preamble
    have depth : Line.depthBehind 0 container.listing.preamble = 0 := Line.depthBehind_of_walk walked
    have body : Line.reindentFrom 0 container.listing.body = container.listing.body := aligned.body
    simp [Listing.lines, preamble, depth, body]
  cases name with
  | none => exact lines
  | some name => exact congrArg (Fitting.headerLine name :: ·) lines

/-- A header starts anew, whatever was open before it. -/
theorem reindentFrom_named {name : String} (named : entry.1 = some name) (depth : Nat) :
    Line.reindentFrom depth (containerLines entry) = Line.reindent (containerLines entry) := by
  obtain ⟨_, container⟩ := entry
  obtain rfl := named
  rfl

theorem reindentFrom_entries {entries : List (Option String × Container)} (depth : Nat)
    (named : ∀ entry ∈ entries, ∃ name, entry.1 = some name)
    (placed : ∀ entry ∈ entries, Line.reindent (containerLines entry) = containerLines entry) :
    Line.reindentFrom depth (entries.flatMap containerLines) = entries.flatMap containerLines := by
  induction entries generalizing depth with
  | nil => rfl
  | cons entry rest ih =>
      obtain ⟨⟨name, first⟩, named⟩ := List.forall_mem_cons.mp named
      obtain ⟨here, placed⟩ := List.forall_mem_cons.mp placed
      simp [reindentFrom_named first, here, ih _ named placed]

end Entries

theorem Shaped.reindent_lines {script : Script} (shaped : script.Shaped) (aligned : script.Aligned) :
    Line.reindent script.lines = script.lines := by
  have placed : ∀ entry ∈ script.containers, Line.reindent (containerLines entry) = containerLines entry :=
    fun entry member => reindent_containerLines (shaped.stands entry member) (aligned entry member)
  obtain ⟨first, rest, containers⟩ := List.exists_cons_of_ne_nil
    (List.ne_nil_of_mem (mem_active shaped.current))
  have named : ∀ entry ∈ rest, ∃ name, entry.1 = some name := fun _ => shaped.named_of_mem_tail containers
  rw [containers] at placed
  obtain ⟨here, behind⟩ := List.forall_mem_cons.mp placed
  have start : Line.reindentFrom 0 (containerLines first) = containerLines first := here
  simp [lines, containers, Line.reindent, start, reindentFrom_entries _ named behind]

/-- Behind every history, whatever was refused and whatever is still open, finding the depths of all lines anew
from their tags changes no line, and the depth counted for the next line of a container is the one behind its
lines. -/
theorem reindent_lines_eq_self (limits : Limits) (steps : List Step) (plain : ∀ step ∈ steps, step.Plain) :
    Line.reindent (after limits steps).lines = (after limits steps).lines ∧
      ∀ entry ∈ (after limits steps).containers,
        entry.2.listing.indent = Line.depthBehind 0 (containerLines entry) := by
  have shaped := shaped_after limits plain
  refine ⟨shaped.reindent_lines (aligned_after limits plain), fun entry member => ?_⟩
  have stands := shaped.stands entry member
  rw [stands.indent]
  have walked : Position.outside.walk (containerLines entry) = some _ := walk_containerLines stands
  exact (Line.depthBehind_of_walk walked).symm

/-- A history with code in both bodies of a conditional, a preamble line put in while the first was open, and
statements that are refused. At its end a body is open in a container that another one stands behind. -/
def overhang : List Step :=
  [.openIf true [], .lower (Lowering.assign (.player "x") (.ofLong 1)), .goto "f",
    .preamble { text := "// first", tag := .comment }, .close, .openElse,
    .lower (Lowering.assign (.player "x") (.ofLong 2)), .close, .close, .goto "f", .exit, .goto "g",
    .emit { text := "fullHeal", tag := .misc, indent := 5 }, .goto "f", .openIf false [], .goto "g", .cancel]

theorem overhang_plain : ∀ step ∈ overhang, step.Plain := by
  simp [overhang, Step.Plain, Tag.isPlain, Tag.opens, Tag.closesBody]

theorem reindent_lines_eq_self_overhang :
    (∀ step ∈ overhang, step.Plain) ∧ (after {} overhang).branch = some .first ∧
      (after {} overhang).lines.map Line.indent = [0, 0, 1, 0, 1, 0, 0, 0, 0, 1, 0, 0] ∧
      Line.reindent (after {} overhang).lines = (after {} overhang).lines :=
  ⟨overhang_plain, rfl, rfl, (reindent_lines_eq_self {} overhang overhang_plain).1⟩

end Script

end StatScript
