import GameRelay.Inbound.Response
import GameRelay.Scenario.Network

/-!
# A consumer that follows a script

It keeps a status that can be set, panics in the handlers that it was told to
panic in, and holds back handlers that are called with certain names. It records
every notice before it does anything else.
-/

set_option autoImplicit false

namespace GameRelay.Scenario

open GameRelay.Inbound GameRelay.Json GameRelay.Frame

inductive Handler where
  | connected
  | closed
  | status
  deriving DecidableEq, Repr

def Handler.ofNotice : Notice → Handler
  | .connected _ => .connected
  | .closed _ => .closed
  | .status => .status

structure Script where
  status : Value := .null
  panics : List (Handler × Option String) := []
  held : List String := []
  heard : List Notice := []
  /-- How many handlers were called; each runs in a task of its own. -/
  called : Nat := 0

inductive ConsumerStep where
  | status (value : Value)
  | panic (handler : Handler) (text : Option String)
  | calm (handler : Handler)
  | hold (name : String)

namespace Script

def calm (s : Script) (handler : Handler) : Script :=
  { s with panics := s.panics.filter fun p => p.1 != handler }

def step (s : Script) : ConsumerStep → Script
  | .status value => { s with status := value }
  | .panic handler text =>
    { s.calm handler with panics := (handler, text) :: (s.calm handler).panics }
  | .calm handler => s.calm handler
  | .hold name => { s with held := name :: s.held }

def release (s : Script) (name : String) : Script :=
  { s with held := s.held.filter (· != name) }

def holds (s : Script) : Notice → Bool
  | .connected name | .closed name => s.held.contains name
  | .status => false

def consumer : Consumer Script where
  handle s notice :=
    ({ s with heard := s.heard ++ [notice], called := s.called + 1 },
      match s.panics.lookup (Handler.ofNotice notice) with
      | some text => .panicked (toString s.called) text
      | none => .returned s.status)

end Script

/-! ## Requests without a connection -/

structure Seen where
  events : List Notice
  log : List LogLine

def answerRequest (n : Network) (s : Script) (request : Request) : Script × Response × Seen :=
  let answer := respond Script.consumer s request
  ({ answer.state with heard := [] }, answer.response,
    ⟨answer.notices, answer.reports.map (Report.log n.address)⟩)

end GameRelay.Scenario
