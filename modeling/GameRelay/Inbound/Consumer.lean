import GameRelay.Inbound.Call

/-!
# The consumer of the relay's calls

A consumer keeps a state of its own and answers one notice at a time. A handler
returns a value or panics; the value matters only where a status was asked for.
-/

set_option autoImplicit false

namespace GameRelay.Inbound

open GameRelay.Json

inductive Notice where
  | connected (name : String)
  | closed (name : String)
  | status
  deriving DecidableEq, Repr

/-- How a handler ends. A panic may come without a text; what names the task that the handler
ran in is up to the runtime. -/
inductive Reaction where
  | returned (value : Value)
  | panicked (task : String) (text : Option String)

structure Consumer (σ : Type) where
  handle : σ → Notice → σ × Reaction

namespace Call

def notice : Call → Notice
  | .gameConnected game => .connected game.name
  | .gameClosed game => .closed game.name
  | .status => .status

def result : Call → Value → Value
  | .status, value => value
  | _, _ => .null

end Call

end GameRelay.Inbound
