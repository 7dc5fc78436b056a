import StatScript.Proofs.Lowering.Arithmetic
import StatScript.Proofs.Lowering.Transcript

/-!
# Modulo

Modulo is written so that its result has the sign of the divisor: the remainder is moved up by the divisor and
taken once more. With a positive divisor this is the remainder that is never negative, as long as the move
stays within 64 bits. One step further the moved remainder turns negative, and the result is never right.

Results:
1. `Lowering.modulo_eq_ok`: which operands are accepted.
2. `lower_modulo_euclidean_iff`: when running the emitted lines leaves the remainder that is never negative.
-/

namespace StatScript

/-- Operands whose types go together and are not strings are accepted. -/
theorem Lowering.modulo_eq_ok {left right : Operand} {temps : Nat} (usable : left.Usable temps)
    (usable' : right.Usable temps)
    (compatible : left.type.accepts right.type (left.isLiteral || right.isLiteral))
    (numeric : left.type ≠ .string) (numeric' : right.type ≠ .string) :
    Lowering.modulo left right = .ok (Emit.modulo left right) := by
  have passes : Check.compatible Operation.mod.name left right = .ok () := if_pos compatible
  simp only [Lowering.modulo, passes, Check.numeric_eq_ok numeric, Check.numeric_eq_ok numeric',
    usable.finite, usable'.finite]
  rfl

/-- An operation that returns an operand writes its code when it is asked for. -/
theorem Request.lower_answer {lowering : Except LoweringError (Emit Operand)} {emit : Emit Operand}
    (accepted : lowering = .ok emit) (context : Context) (listing : Listing) :
    context.lower listing (answer some lowering) =
      .ok (some (emit context.temps).result, { context with temps := (emit context.temps).temps },
        listing.extend (Draft.changeLines listing.indent (emit context.temps).changes)) := by
  have code : (some <$> emit : Emit (Option Operand)) context.temps =
      ⟨(emit context.temps).changes, some (emit context.temps).result, (emit context.temps).temps⟩ :=
    congrArg (Code.mk · _ _) (List.append_nil _)
  have answered : answer some lowering = .ok (some <$> emit) := by
    rw [accepted]
    rfl
  rw [Context.lower_of_eq_ok answered, code]

/-- Both ways to ask for a modulo are lowered. Where the divisor is positive, running the emitted lines leaves
the remainder that is not negative and below the divisor just if the remainder of the machine's division, moved
up by the divisor, is a number of 64 bits; in particular for all divisors up to `2 ^ 62`. -/
theorem lower_modulo_euclidean_iff {context : Context} {left right : Operand} {request : Request}
    (usable : left.Usable context.temps) (usable' : right.Usable context.temps)
    (compatible : left.type.accepts right.type (left.isLiteral || right.isLiteral))
    (numeric : left.type ≠ .string) (numeric' : right.type ≠ .string)
    (asked : request = .modulo left right ∨ request = .reflectedModulo right left) (listing : Listing) :
    ∃ result later emitted,
      context.lower listing request.lowering = .ok (some result, later, listing.extend emitted) ∧
      ∀ (store : Store) (a b : Int64), store.eval left = .ok a → store.eval right = .ok b → 0 < b.toInt →
        (store.Leaves emitted result (a.toInt % b.toInt) ↔
          a.toInt.tmod b.toInt + b.toInt ≤ 2 ^ 63 - 1) ∧
        (b.toInt ≤ 2 ^ 62 → store.Leaves emitted result (a.toInt % b.toInt)) ∧
        0 ≤ a.toInt % b.toInt ∧ a.toInt % b.toInt < b.toInt := by
  have accepted := Lowering.modulo_eq_ok usable usable' compatible numeric numeric'
  have lowering : request.lowering = Request.answer some (Lowering.modulo left right) := by
    rcases asked with rfl | rfl <;> rfl
  have lowered := Request.lower_answer accepted context listing
  rw [← lowering] at lowered
  refine ⟨_, _, _, lowered, ?_⟩
  intro store a b dividend divisor positive
  obtain rfl := usable.read_of_eval dividend
  obtain rfl := usable'.read_of_eval divisor
  have nonzero : right.read store ≠ 0 := by
    intro zero
    rw [zero] at positive
    exact absurd positive (by decide)
  have leaves := (Emit.achieves_modulo usable usable' nonzero).leaves listing.indent
  rw [leaves.iff_eq, toInt_modulo_eq_emod_iff (left.read store) positive]
  have most := Int.tmod_lt_of_pos (left.read store).toInt positive
  exact ⟨Iff.rfl, fun small => by omega, Int.emod_nonneg _ (by omega), Int.emod_lt_of_pos _ positive⟩

/-- The largest divisor, asked for from its side. The least dividend leaves a remainder of minus one, which is
moved up within 64 bits; `2 ^ 62` is its own remainder and is not. -/
theorem lower_modulo_euclidean_iff_largest :
    ∃ result later emitted,
      Context.lower { temps := 2 } { indent := 1 }
          (Request.reflectedModulo (.ofLong 9223372036854775807) (.slot (.player "x"))).lowering =
        .ok (some result, later, Listing.extend { indent := 1 } emitted) ∧
      Store.Leaves ⟨[("stat x", -9223372036854775808)]⟩ emitted result 9223372036854775806 ∧
      ¬Store.Leaves ⟨[("stat x", 4611686018427387904)]⟩ emitted result 4611686018427387904 := by
  have sound : SlotKey.Sound (.player "x") := (by decide : SlotKey.Ordinary (.player "x")).toSound
  have usable : (Operand.slot (.player "x")).Usable 2 := Operand.usable_slot sound fun _ => nofun
  obtain ⟨result, later, emitted, lowered, runs⟩ := @lower_modulo_euclidean_iff { temps := 2 } _ _ _ usable
    (Operand.usable_long 2 9223372036854775807) rfl nofun nofun (.inr rfl) { indent := 1 }
  refine ⟨result, later, emitted, lowered, ?_, ?_⟩
  · exact (runs ⟨[("stat x", -9223372036854775808)]⟩ (-9223372036854775808) 9223372036854775807
      (by decide) (by decide) (by decide)).1.mpr (by decide)
  · intro left
    have fits := (runs ⟨[("stat x", 4611686018427387904)]⟩ 4611686018427387904 9223372036854775807
      (by decide) (by decide) (by decide)).1.mp left
    exact absurd fits (by decide)

end StatScript
