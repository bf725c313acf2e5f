import GameRelay.Proofs.Frame.Members
import GameRelay.Proofs.Json.Printed.Record

/-!
# The two ways to an identity

The identity of a game comes in two ways: out of the parameters of a call, which were
read as a value before, or straight from a text. Both fields are texts, so neither way
reads a number, and how deep the members of other names nest does not matter.
-/

set_option autoImplicit false

namespace GameRelay.Frame.Identity

open GameRelay.Json

theorem typed_schema : Typed schema.fields := by
  intro f hf
  simp only [schema, List.mem_cons, List.not_mem_nil, or_false] at hf
  rcases hf with rfl | rfl
  · simp
  · simp

section
variable {v : Value} {g : Identity}

theorem ofValue_iff_row : ofValue v = .ok g ↔ schema.ofValue v = .ok g.row :=
  map_eq_ok_iff_of_inverse (fun _ => rfl) fun _ => rfl

theorem parse_iff_row {text : String} : parse text = .ok g ↔ schema.parse text = .ok g.row :=
  map_eq_ok_iff_of_inverse (fun _ => rfl) fun _ => rfl

theorem parse_print_iff : parse v.print = .ok g ↔ ofValue v = .ok g := by
  rw [parse_iff_row, ofValue_iff_row]
  exact schema.parse_print_iff typed_schema v g.row

end

/-- A value and its printed text are the same identity, or both are none; what an identity
itself is written as leads back to it on either way. -/
theorem decodings_agree :
    (∀ (v : Value) (g : Identity), parse v.print = .ok g ↔ ofValue v = .ok g) ∧
      ∀ g : Identity, ofValue g.toValue = .ok g ∧ parse g.print = .ok g :=
  ⟨fun _ _ => parse_print_iff,
    fun g => ⟨ofValue_toValue g, parse_print_iff.mpr (ofValue_toValue g)⟩⟩

end GameRelay.Frame.Identity
