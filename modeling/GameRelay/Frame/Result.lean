import GameRelay.Frame.Identity
import GameRelay.Frame.Request
import GameRelay.Frame.Response
import GameRelay.RelayError

/-!
# Results of calls

A caller says what it wants the result to be. A response with an error is a
failure before its result is looked at.
-/

set_option autoImplicit false

namespace GameRelay.Frame

open GameRelay.Json

inductive Want where
  | boolean
  | text
  | word
  | identity
  | any
  deriving DecidableEq, Repr

structure CallSpec where
  method : String
  argument : Argument
  want : Want

def CallSpec.game (method : String) (game : Identity) : CallSpec :=
  ⟨method, .value game.toValue, .boolean⟩

def Want.decode : Want → Value → Except Mismatch Value
  | .boolean, v => v.toBoolean.map .bool
  | .text, v => v.toText.map .text
  | .word, v => v.toWord.map fun n => .number (.ofUInt64 n)
  | .identity, v => (Identity.ofValue v).map Identity.toValue
  | .any, v => .ok v

def Response.outcome (r : Response) (want : Want) : Except RelayError Value :=
  match r.error with
  | some message => .error (.remote message)
  | none => (want.decode r.result).mapError fun what => .decode (.value what)

theorem Response.outcome_cases (r : Response) (want : Want) :
    (∃ v, r.outcome want = .ok v) ∨ (∃ message, r.outcome want = .error (.remote message)) ∨
      ∃ what, r.outcome want = .error (.decode what) := by
  unfold Response.outcome
  split
  · exact .inr (.inl ⟨_, rfl⟩)
  · cases want.decode r.result with
    | ok v => exact .inl ⟨v, rfl⟩
    | error what => exact .inr (.inr ⟨_, rfl⟩)

theorem Want.decode_boolean_eq_true_iff (v : Value) :
    Want.boolean.decode v = .ok (.bool true) ↔ v = .bool true := by
  cases v <;> simp [Want.decode, Value.toBoolean, Value.mismatch, Except.map]

theorem Response.outcome_boolean_true_iff (r : Response) :
    r.outcome .boolean = .ok (.bool true) ↔ r.error = none ∧ r.result = .bool true := by
  rw [← Want.decode_boolean_eq_true_iff, Response.outcome]
  cases r.error with
  | some m => simp
  | none =>
    cases Want.boolean.decode r.result with
    | ok v => exact ⟨fun h => ⟨rfl, Except.ok.inj h ▸ rfl⟩, fun h => Except.ok.inj h.2 ▸ rfl⟩
    | error e => exact ⟨nofun, fun h => nomatch h.2⟩

end GameRelay.Frame
