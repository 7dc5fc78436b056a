import StatScript.Proofs.Fitting.Settled

/-!
# What fits

The limits hold between placeholders. A container is cut into blocks at the placeholders outside
conditionals, and each body of a conditional into pieces at the placeholders in it. A block may have
so many conditionals and so many changes of each kind outside them, a piece so many changes of each
kind.

Results:
1. `Settled.fits`: settled lines fit.
2. `Fits.whole`: a container without placeholders fits as a whole.
3. `fitProgram_fits`: each container of a fitted program fits.
-/

namespace StatScript.Fitting

/-! ## Blocks and pieces -/

/-- Whether the line behind one with a given tag stands in a conditional. -/
def insideAfter (inside : Bool) (tag : Tag) : Bool :=
  if tag.opens then true else if tag.closes then false else inside

/-- The lines with whether each of them stands in a conditional, from `inside` on. -/
def placed (inside : Bool) : List Line → List (Line × Bool)
  | [] => []
  | line :: rest => (line, inside) :: placed (insideAfter inside line.tag) rest

def dividesBlock (entry : Line × Bool) : Bool :=
  isPlaceholder entry.1 && !entry.2

def opensConditional (entry : Line × Bool) : Bool :=
  entry.1.tag.opens

def changesOutside (kind : ChangeKind) (entry : Line × Bool) : Bool :=
  entry.1.tag = .change kind && !entry.2

def changes (kind : ChangeKind) (line : Line) : Bool :=
  line.tag = .change kind

/-- The blocks of a container. -/
def blocks (lines : List Line) : List (List (Line × Bool)) :=
  (placed false lines).splitOnP dividesBlock

/-- The bodies of conditionals, in order: what follows a line that opens a conditional or its second
body, up to the next line that ends a body. -/
def bodies : List Line → List (List Line)
  | [] => []
  | line :: rest =>
      if line.tag.opens || line.tag = .elseOpen then rest.takeWhile staysInBody :: bodies rest
      else bodies rest

/-- The pieces of a body. -/
def pieces (body : List Line) : List (List Line) :=
  body.splitOnP isPlaceholder

/-- The lines of a container keep to the limits in each block and each piece. -/
structure Fits (limits : Limits) (lines : List Line) : Prop where
  conditionals : ∀ block ∈ blocks lines, block.countP opensConditional ≤ limits.conditionals
  outside : ∀ block ∈ blocks lines, ∀ kind,
    block.countP (changesOutside kind) ≤ limits.changes
  inside : ∀ body ∈ bodies lines, ∀ piece ∈ pieces body, ∀ kind,
    piece.countP (changes kind) ≤ limits.changes

/-- The lines of a container keep to the limits without being cut. -/
structure FitsWhole (limits : Limits) (lines : List Line) : Prop where
  conditionals : (placed false lines).countP opensConditional ≤ limits.conditionals
  outside : ∀ kind, (placed false lines).countP (changesOutside kind) ≤ limits.changes
  inside : ∀ body ∈ bodies lines, ∀ kind, body.countP (changes kind) ≤ limits.changes

/-! ## Counting between cuts -/

/-- At most `limit` elements are counted between two cuts, `used` of them before the first. -/
def Bounded {α : Type} (cuts counts : α → Bool) (limit : Nat) : Nat → List α → Prop
  | used, [] => used ≤ limit
  | used, a :: rest =>
      if cuts a then used ≤ limit ∧ Bounded cuts counts limit 0 rest
      else Bounded cuts counts limit (used + if counts a then 1 else 0) rest

section Bounded

variable {α : Type} {cuts counts : α → Bool} {limit used : Nat} {a : α} {rest : List α}

theorem bounded_cons {next : Nat} (first : used ≤ limit)
    (counted : next = if cuts a then 0 else used + if counts a then 1 else 0)
    (further : Bounded cuts counts limit next rest) :
    Bounded cuts counts limit used (a :: rest) := by
  unfold Bounded
  split
  · next cut =>
      rw [if_pos cut] at counted
      exact ⟨first, counted ▸ further⟩
  · next cut =>
      rw [if_neg cut] at counted
      exact counted ▸ further

theorem Bounded.splitOnP {l : List α} (bounded : Bounded cuts counts limit used l) :
    ∃ block further, l.splitOnP cuts = block :: further ∧ used + block.countP counts ≤ limit ∧
      ∀ other ∈ further, other.countP counts ≤ limit := by
  induction l generalizing used with
  | nil => exact ⟨[], [], rfl, bounded, nofun⟩
  | cons a rest ih =>
      unfold Bounded at bounded
      rw [List.splitOnP_cons_eq_if_modifyHead]
      split at bounded
      · next cut =>
          obtain ⟨block, further, same, first, others⟩ := ih bounded.2
          rw [if_pos cut, same]
          refine ⟨[], block :: further, rfl, bounded.1, List.forall_mem_cons.mpr ⟨?_, others⟩⟩
          omega
      · next cut =>
          obtain ⟨block, further, same, first, others⟩ := ih bounded
          rw [if_neg cut, same]
          refine ⟨a :: block, further, rfl, ?_, others⟩
          rw [List.countP_cons]
          omega

theorem Bounded.countP_le {l block : List α} (bounded : Bounded cuts counts limit used l)
    (listed : block ∈ l.splitOnP cuts) : block.countP counts ≤ limit := by
  obtain ⟨head, further, same, first, others⟩ := bounded.splitOnP
  rw [same] at listed
  rcases List.mem_cons.mp listed with rfl | listed
  · omega
  · exact others block listed

end Bounded

/-! ## Settled lines fit -/

/-- The room taken keeps to the limits. -/
structure Room.Within (limits : Limits) (room : Room) : Prop where
  conditionals : room.openings ≤ limits.conditionals
  outside : ∀ kind, room.outside.get kind ≤ limits.changes
  inside : ∀ kind, room.inside.get kind ≤ limits.changes

section Settled

variable {limits : Limits} {room next : Room} {line : Line} {lines : List Line}

theorem get_bump_le {tally : Tally} {kind : ChangeKind} {limit : Nat}
    (free : tally.get kind < limit) (bounded : ∀ other, tally.get other ≤ limit)
    (other : ChangeKind) : (tally.bump kind).get other ≤ limit := by
  rw [Tally.get_bump]
  split
  · next same => rw [same]; exact free
  · exact bounded other

theorem get_empty_le (limit : Nat) (kind : ChangeKind) : Tally.get {} kind ≤ limit := by
  simp

/-- Keeping a line keeps to the limits. -/
theorem Kept.within (kept : Kept limits room line next) (within : room.Within limits) :
    next.Within limits := by
  obtain ⟨conditionals, outside, inside⟩ := within
  cases kept with
  | opens _ _ free => exact ⟨free, outside, get_empty_le _⟩
  | elseOpen _ _ => exact ⟨conditionals, outside, get_empty_le _⟩
  | closes _ _ => exact ⟨conditionals, outside, inside⟩
  | changeOutside _ _ free => exact ⟨conditionals, get_bump_le free outside, inside⟩
  | changeInside _ _ free => exact ⟨conditionals, outside, get_bump_le free inside⟩
  | placeholderOutside _ _ => exact ⟨Nat.zero_le _, get_empty_le _, inside⟩
  | placeholderInside _ _ => exact ⟨conditionals, outside, get_empty_le _⟩
  | other _ _ _ => exact ⟨conditionals, outside, inside⟩

/-- Whether the next line stands in a conditional. -/
def Room.isInside (room : Room) : Bool :=
  room.place = .conditional

theorem not_isPlaceholder (tag : line.tag ≠ .comment) : isPlaceholder line = false := by
  simp [isPlaceholder, tag]

theorem Kept.isInside (kept : Kept limits room line next) :
    insideAfter room.isInside line.tag = next.isInside := by
  unfold insideAfter Room.isInside
  cases kept with
  | opens opens place free => simp [opens]
  | elseOpen tag place => simp [tag, Tag.opens, Tag.closes]
  | closes closes place => cases tag : line.tag <;> simp_all [Tag.opens, Tag.closes]
  | changeOutside tag place free | changeInside tag place free => simp [tag, Tag.opens, Tag.closes]
  | placeholderOutside placeholder place | placeholderInside placeholder place =>
      simp [isPlaceholder_tag placeholder, Tag.opens, Tag.closes]
  | other plain change placeholder =>
      simp [(Tag.isPlain_iff.mp plain).1, Tag.closes_of_isPlain plain]

theorem Kept.openings (kept : Kept limits room line next) :
    next.openings = if dividesBlock (line, room.isInside) then 0
      else room.openings + if opensConditional (line, room.isInside) then 1 else 0 := by
  unfold dividesBlock opensConditional Room.isInside
  cases kept with
  | opens opens place free => cases tag : line.tag <;> simp_all [Tag.opens, not_isPlaceholder]
  | elseOpen tag place => simp [tag, Tag.opens, not_isPlaceholder]
  | closes closes place => cases tag : line.tag <;> simp_all [Tag.opens, Tag.closes]
  | changeOutside tag place free | changeInside tag place free =>
      simp [tag, Tag.opens, not_isPlaceholder]
  | placeholderOutside placeholder place => simp [placeholder, place]
  | placeholderInside placeholder place =>
      simp [place, isPlaceholder_tag placeholder, Tag.opens]
  | other plain change placeholder => simp [placeholder, (Tag.isPlain_iff.mp plain).1]

theorem Kept.outside (kept : Kept limits room line next) (kind : ChangeKind) :
    next.outside.get kind = if dividesBlock (line, room.isInside) then 0
      else room.outside.get kind + if changesOutside kind (line, room.isInside) then 1 else 0 := by
  unfold dividesBlock changesOutside Room.isInside
  cases kept with
  | opens opens place free => cases tag : line.tag <;> simp_all [Tag.opens, not_isPlaceholder]
  | elseOpen tag place => simp [tag, not_isPlaceholder]
  | closes closes place => cases tag : line.tag <;> simp_all [Tag.closes]
  | changeOutside tag place free =>
      simp [tag, place, not_isPlaceholder, eq_comm]
  | changeInside tag place free => simp [tag, place]
  | placeholderOutside placeholder place => simp [placeholder, place]
  | placeholderInside placeholder place => simp [place]
  | other plain change placeholder => simp [placeholder, change kind]

theorem Kept.inside (kept : Kept limits room line next) (inside : room.place = .conditional)
    (stays : staysInBody line) (kind : ChangeKind) :
    next.place = .conditional ∧
      next.inside.get kind = if isPlaceholder line then 0
        else room.inside.get kind + if changes kind line then 1 else 0 := by
  unfold changes
  unfold staysInBody at stays
  cases kept with
  | opens opens place free => exact absurd (place.symm.trans inside) nofun
  | elseOpen tag place => simp [tag, Tag.closesBody] at stays
  | closes closes place => cases tag : line.tag <;> simp_all [Tag.closes, Tag.closesBody]
  | changeOutside tag place free => exact absurd (place.symm.trans inside) nofun
  | changeInside tag place free =>
      simp [tag, place, not_isPlaceholder, eq_comm]
  | placeholderOutside placeholder place => exact absurd (place.symm.trans inside) nofun
  | placeholderInside placeholder place =>
      rw [if_pos placeholder]
      exact ⟨place, Tally.get_empty kind⟩
  | other plain change placeholder => simp [placeholder, change kind, inside]

/-- A body starts empty. -/
theorem Kept.starts (kept : Kept limits room line next)
    (starts : line.tag.opens || line.tag = .elseOpen) :
    next.place = .conditional ∧ ∀ kind, next.inside.get kind = 0 := by
  cases kept with
  | opens _ _ _ => exact ⟨rfl, Tally.get_empty⟩
  | elseOpen _ place => exact ⟨place, Tally.get_empty⟩
  | closes closes _ => cases tag : line.tag <;> simp_all [Tag.opens, Tag.closes]
  | changeOutside tag _ _ | changeInside tag _ _ => simp [tag, Tag.opens] at starts
  | placeholderOutside placeholder _ | placeholderInside placeholder _ =>
      simp [isPlaceholder_tag placeholder, Tag.opens] at starts
  | other plain _ _ => cases tag : line.tag <;> simp_all [Tag.isPlain, Tag.opens, Tag.closesBody]

theorem Settled.conditionals (settled : Settled limits room lines) (within : room.Within limits) :
    Bounded dividesBlock opensConditional limits.conditionals room.openings
      (placed room.isInside lines) := by
  induction settled with
  | nil _ => exact within.conditionals
  | cons kept _ ih =>
      rw [placed, kept.isInside]
      exact bounded_cons within.conditionals kept.openings (ih (kept.within within))

theorem Settled.outside (settled : Settled limits room lines) (within : room.Within limits)
    (kind : ChangeKind) :
    Bounded dividesBlock (changesOutside kind) limits.changes (room.outside.get kind)
      (placed room.isInside lines) := by
  induction settled with
  | nil _ => exact within.outside kind
  | cons kept _ ih =>
      rw [placed, kept.isInside]
      exact bounded_cons (within.outside kind) (kept.outside kind) (ih (kept.within within))

theorem Settled.body (settled : Settled limits room lines) (within : room.Within limits)
    (inside : room.place = .conditional) (kind : ChangeKind) :
    Bounded isPlaceholder (changes kind) limits.changes (room.inside.get kind)
      (lines.takeWhile staysInBody) := by
  induction settled with
  | nil _ => exact within.inside kind
  | @cons room next line rest kept _ ih =>
      cases stays : staysInBody line with
      | false =>
          rw [List.takeWhile_cons_of_neg (by simp [stays])]
          exact within.inside kind
      | true =>
          rw [List.takeWhile_cons_of_pos stays]
          obtain ⟨further, counted⟩ := kept.inside inside stays kind
          exact bounded_cons (within.inside kind) counted (ih (kept.within within) further)

theorem Settled.bodies (settled : Settled limits room lines) (within : room.Within limits) :
    ∀ body ∈ Fitting.bodies lines, ∀ piece ∈ pieces body, ∀ kind,
      piece.countP (changes kind) ≤ limits.changes := by
  induction settled with
  | nil _ => exact nofun
  | @cons room next line rest kept settled ih =>
      have within' := kept.within within
      unfold Fitting.bodies
      split
      · next starts =>
          -- Behind such a line a body is open.
          have inside := (kept.starts starts).1
          refine List.forall_mem_cons.mpr ⟨?_, ih within'⟩
          intro piece listed kind
          exact (settled.body within' inside kind).countP_le listed
      · exact ih within'

/-- Settled lines fit. -/
theorem Settled.fits (settled : Settled limits {} lines) : Fits limits lines := by
  have within : Room.Within limits {} := ⟨Nat.zero_le _, get_empty_le _, get_empty_le _⟩
  refine ⟨?_, ?_, settled.bodies within⟩
  · intro block listed
    exact (settled.conditionals within).countP_le listed
  · intro block listed kind
    exact (settled.outside within kind).countP_le listed

end Settled

/-! ## Without placeholders -/

section Whole

variable {limits : Limits} {lines : List Line}

theorem mem_of_mem_placed {inside : Bool} {entry : Line × Bool}
    (member : entry ∈ placed inside lines) : entry.1 ∈ lines := by
  induction lines generalizing inside with
  | nil => cases member
  | cons line rest ih =>
      rcases List.mem_cons.mp member with rfl | member
      · exact List.mem_cons_self
      · exact List.mem_cons_of_mem line (ih member)

theorem subset_of_mem_bodies {body : List Line} (listed : body ∈ bodies lines) : body ⊆ lines := by
  induction lines with
  | nil => cases listed
  | cons line rest ih =>
      unfold bodies at listed
      split at listed
      · rcases List.mem_cons.mp listed with rfl | listed
        · exact List.subset_cons_of_subset line (List.takeWhile_sublist _).subset
        · exact List.subset_cons_of_subset line (ih listed)
      · exact List.subset_cons_of_subset line (ih listed)

/-- A container without placeholders fits as a whole. -/
theorem Fits.whole (fits : Fits limits lines)
    (unmarked : ∀ line ∈ lines, isPlaceholder line = false) : FitsWhole limits lines := by
  have one : blocks lines = [placed false lines] := by
    refine List.splitOnP_eq_singleton fun entry member => ?_
    simp [dividesBlock, unmarked entry.1 (mem_of_mem_placed member)]
  have onePiece {body : List Line} (listed : body ∈ bodies lines) : pieces body = [body] := by
    refine List.splitOnP_eq_singleton fun line member => ?_
    exact unmarked line (subset_of_mem_bodies listed member)
  refine ⟨?_, ?_, ?_⟩
  · exact fits.conditionals _ (one ▸ List.mem_singleton_self _)
  · exact fits.outside _ (one ▸ List.mem_singleton_self _)
  · intro body listed
    exact fits.inside body listed body (onePiece listed ▸ List.mem_singleton_self _)

end Whole

/-- Each container of a fitted program fits: its blocks have no more conditionals and no more changes
of each kind outside them than the limits say, and the pieces of the bodies of its conditionals no more
changes of each kind. Without placeholders it fits as a whole. -/
theorem fitProgram_fits {limits : Limits} {lines : List Line} {outcome : Outcome}
    (changes : 1 ≤ limits.changes) (conditionals : 1 ≤ limits.conditionals)
    (fits : fitProgram limits lines = .ok outcome) :
    ∀ segment ∈ segments headerName? outcome.lines,
      Fits limits segment.body ∧
        ((∀ line ∈ segment.body, isPlaceholder line = false) → FitsWhole limits segment.body) := by
  intro segment listed
  have fitting := (fitProgram_settled changes conditionals fits segment listed).fits
  exact ⟨fitting, fitting.whole⟩

theorem fitProgram_fits_crowded :
    ∃ outcome, fitProgram ⟨1, 1⟩ crowded = .ok outcome ∧
      ∀ segment ∈ segments headerName? outcome.lines,
        Fits ⟨1, 1⟩ segment.body ∧
          ((∀ line ∈ segment.body, isPlaceholder line = false) → FitsWhole ⟨1, 1⟩ segment.body) :=
  ⟨_, fitProgram_crowded, fitProgram_fits (by decide) (by decide) fitProgram_crowded⟩

end StatScript.Fitting
