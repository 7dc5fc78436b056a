import StatScript.Proofs.Compilation.Source

/-!
# Drafts

A script with lines in the container without a name only is known by few things: the declared slots, its
lines, the temps handed out, the depth of the next line, the open body and whether an `else` may follow.
Each step of writing is stated once, on these.

Results:
1. `lowered_eq_ok`: a lowering appends the changes of its code.
2. `openIf_eq_ok`, `openElse_eq_ok`, `close_eq_ok`: what the control statements append.
-/

namespace StatScript

/-- A script that has only the container without a name. -/
structure Draft where
  registry : Registry := {}
  body : List Line := []
  temps : Nat := 0
  indent : Nat := 0
  branch : Option Branch := none
  elseAllowed : Bool := false

namespace Draft

/-- The script of a draft. -/
def script (limits : Limits) (draft : Draft) : Script :=
  { context := { registry := draft.registry, temps := draft.temps }
    limits
    containers := [(none, { listing := { body := draft.body, indent := draft.indent } })]
    branch := draft.branch
    elseAllowed := draft.elseAllowed }

theorem script_empty (limits : Limits) (registry : Registry) :
    script limits { registry } = { Script.new limits with context := { registry } } := rfl

theorem lines_script (limits : Limits) (draft : Draft) : (draft.script limits).lines = draft.body :=
  List.append_nil _

/-- The lines of changes at a given depth. -/
def changeLines (indent : Nat) (changes : List Change) : List Line :=
  (changes.map Change.line).map fun line => { line with indent }

/-- The draft with changes at its end. -/
def append (draft : Draft) (changes : List Change) (temps : Nat) : Draft :=
  { draft with
    body := draft.body ++ changeLines draft.indent changes
    temps
    elseAllowed := false }

/-- A later draft of the same body, with changes behind its lines. -/
structure Grows (draft : Draft) (changes : List Change) (later : Draft) : Prop where
  body : later.body = draft.body ++ changeLines draft.indent changes
  temps : draft.temps ≤ later.temps
  indent : later.indent = draft.indent
  branch : later.branch = draft.branch

theorem Grows.refl (draft : Draft) : draft.Grows [] draft :=
  ⟨(List.append_nil _).symm, Nat.le_refl _, rfl, rfl⟩

theorem Grows.trans {draft next later : Draft} {changes changes' : List Change}
    (first : draft.Grows changes next) (second : next.Grows changes' later) :
    draft.Grows (changes ++ changes') later where
  body := by
    rw [second.body, first.body, first.indent, changeLines, changeLines, changeLines,
      List.map_append, List.map_append, List.append_assoc]
  temps := Nat.le_trans first.temps second.temps
  indent := second.indent.trans first.indent
  branch := second.branch.trans first.branch

theorem Grows.withdrawElse {draft later : Draft} {changes : List Change}
    (grows : draft.Grows changes later) : draft.Grows changes { later with elseAllowed := false } :=
  ⟨grows.body, grows.temps, grows.indent, grows.branch⟩

theorem grows_append {draft : Draft} {temps : Nat} (le : draft.temps ≤ temps)
    (changes : List Change) : draft.Grows changes (draft.append changes temps) :=
  ⟨rfl, le, rfl, rfl⟩

end Draft

open Draft

section Steps

variable {limits : Limits} {draft : Draft} {next : Script}

theorem bind_eq_ok {ε α β : Type} {first : Except ε α} {rest : α → Except ε β} {result : β} :
    first >>= rest = .ok result ↔ ∃ value, first = .ok value ∧ rest value = .ok result := by
  cases first with
  | error error => simp [bind, Except.bind]
  | ok value => simp [bind, Except.bind]

theorem mapError_eq_ok {ε ε' α : Type} {f : ε → ε'} {first : Except ε α} {result : α} :
    first.mapError f = .ok result ↔ first = .ok result := by
  cases first with
  | error error => exact ⟨nofun, nofun⟩
  | ok value =>
      constructor
      · rintro ⟨⟩
        rfl
      · rintro ⟨⟩
        rfl

/-- A lowering appends the changes of its code. -/
theorem lowered_eq_ok {α : Type} {lowering : Except LoweringError (Emit α)} {result : α}
    (written : (draft.script limits).lowered lowering = .ok (result, next)) :
    ∃ emit, lowering = .ok emit ∧ result = (emit draft.temps).result ∧
      next = (draft.append (emit draft.temps).changes (emit draft.temps).temps).script limits := by
  cases lowering with
  | error error => cases written
  | ok emit =>
      obtain ⟨rfl, rfl⟩ := Prod.mk.inj (Except.ok.inj written)
      exact ⟨emit, rfl, rfl, rfl⟩

theorem openIf_eq_ok {all : Bool} {conditions : List Condition}
    (written : (draft.script limits).openIf all conditions = .ok next) :
    next = script limits { draft with
      body := draft.body ++ [{ Script.openingLine all conditions with indent := draft.indent }]
      indent := draft.indent + 1
      branch := some .first
      elseAllowed := false } := by
  obtain ⟨registry, body, temps, indent, branch, allowed⟩ := draft
  cases branch with
  | some _ => cases written
  | none => exact (Except.ok.inj written).symm

/-- The closing line stands one level higher, and only a first body may be followed by a second. -/
theorem close_eq_ok (written : (draft.script limits).close = .ok next) :
    ∃ branch, draft.branch = some branch ∧
      next = script limits { draft with
        body := draft.body ++
          [⟨"\x7d", if branch = .first then .close else .elseClose, false, draft.indent - 1⟩]
        indent := draft.indent - 1
        branch := none
        elseAllowed := branch = .first } := by
  obtain ⟨registry, body, temps, indent, branch, allowed⟩ := draft
  cases branch with
  | none => cases written
  | some branch => exact ⟨branch, rfl, (Except.ok.inj written).symm⟩

theorem fuse_eq_ok {lines : List Line} {last : Line} {indent : Nat} {suffix : String} {tag : Tag}
    {fused : Listing}
    (written : Listing.fuse { body := lines ++ [last], indent } suffix tag = .ok fused) :
    fused = { body := lines ++ [{ last with text := last.text ++ suffix, tag }], indent } := by
  have last_eq : (Listing.lines { body := lines ++ [last], indent }).getLast? = some last := by
    simp [Listing.lines]
  unfold Listing.fuse at written
  rw [last_eq] at written
  simp only at written
  split at written
  · obtain rfl := Except.ok.inj written
    simp [Listing.setLast]
  · cases written

/-- A second body is opened by the line that closed the first. -/
theorem openElse_eq_ok {lines : List Line} {last : Line} (body : draft.body = lines ++ [last])
    (written : (draft.script limits).openElse = .ok next) :
    next = script limits { draft with
      body := lines ++ [{ last with text := last.text ++ " else \x7b", tag := .elseOpen }]
      indent := draft.indent + 1
      branch := some .second
      elseAllowed := false } := by
  obtain ⟨registry, _, temps, indent, branch, allowed⟩ := draft
  obtain rfl := body
  unfold Script.openElse at written
  split at written
  · obtain ⟨listing, fused, written⟩ := bind_eq_ok.mp written
    obtain rfl := fuse_eq_ok fused
    exact (Except.ok.inj written).symm
  · cases written

end Steps

end StatScript
