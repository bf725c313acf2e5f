import GameRelay.Inbound.Schedule
import GameRelay.Scenario.Consumer

/-!
# Inbound connections, by script

After each step of the script every connection goes on until it has nothing left
to read or waits for a handler that is held back. A step that names a connection
which was never opened ends the scenario.
-/

set_option autoImplicit false

namespace GameRelay.Scenario

open GameRelay.Inbound GameRelay.Text

abbrev Scripted := Listener Script

def unheld (l : Scripted) : ListenerEvent → Bool
  | .handle c => !((l.connections[c]?.bind Serving.waiting?).any l.state.holds)
  | _ => true

/-- A reply to a connection that was broken cannot be written. -/
def onWire (l : Scripted) : ListenerEvent → ListenerEvent
  | .write c =>
    match l.connections[c]?.bind fun s => s.stream.ending with
    | some (.broken error) => .writeFailed c error
    | _ => .write c
  | event => event

def serve : Nat → Scripted → Scripted
  | 0, l => l
  | fuel + 1, l =>
    match l.next? (unheld l) with
    | none => l
    | some event => serve fuel (l.step Script.consumer (onWire l event))

def serveAll (l : Scripted) : Scripted := serve l.fuel l

/-! ## The script -/

inductive ListeningStep where
  | consumer (step : ConsumerStep)
  | connect
  /-- The first attempt to accept the connection fails. -/
  | connectLate
  | send (connection : Nat) (bytes : List UInt8)
  | write (connection : Nat) (bytes : List UInt8)
  | post (connection : Nat) (bytes : List UInt8)
  | finish (connection : Nat)
  | abort (connection : Nat)
  | release (name : String)
  | close
  | drop
  | isClosed

structure NoConnection where
  opened : Nat
  named : Nat
  deriving DecidableEq, Repr

def NoConnection.message (e : NoConnection) : String :=
  s!"index out of bounds: the len is {e.opened} but the index is {e.named}"

inductive ListeningAnswer where
  | ok
  | connection (number : Nat)
  | refused (error : SystemError)
  | replies (lines : List String) (isOpen : Bool)
  | running (handlers : Nat)
  | closed (isClosed : Bool)
  | dropped

structure Listening where
  listener : Scripted := { state := {} }
  shown : List Nat := []
  dropped : Bool := false

namespace Listening

def stepWith (s : Listening) (events : List ListenerEvent) : Listening :=
  { s with listener := serveAll (s.listener.run Script.consumer events) }

def isOpen (s : Listening) (c : Nat) : Bool :=
  match s.listener.connections[c]? with
  | some serving => serving.isOpen && serving.stream.ending.isNone
  | none => false

def takeReplies (s : Listening) (c : Nat) : Listening × List String :=
  match s.listener.connections[c]?, s.shown[c]? with
  | some serving, some shown =>
    ({ s with shown := s.shown.set c serving.written.length },
      (serving.written.drop shown).map fun r => String.ofList r.chars)
  | _, _ => (s, [])

def running (s : Listening) : Nat :=
  (s.listener.connections.filter fun c =>
    match c.waiting? with
    | some notice => s.listener.state.holds notice
    | none => false).length

def connect (n : Network) (s : Listening) (events : List ListenerEvent) :
    Listening × ListeningAnswer :=
  match n.connect s.listener.door.isOpen with
  | .error error => (s, .refused error)
  | .ok () =>
    let number := s.listener.connections.length
    ({ s.stepWith events with shown := s.shown ++ [0] }, .connection number)

def closing (closers : Nat) : List ListenerEvent :=
  [.door .close, .door (.advance closers), .door (.advance closers), .door .stopped,
    .door (.advance closers)]

def exchange (s : Listening) (c : Nat) (bytes : List UInt8) : Listening × ListeningAnswer :=
  if s.isOpen c then
    let (s, lines) := (s.stepWith [.arrive c bytes]).takeReplies c
    (s, .replies lines (s.isOpen c))
  else (s, .replies [] false)

def perform (n : Network) (s : Listening) : ListeningStep → Listening × ListeningAnswer
  | .consumer step =>
    ({ s with listener := { s.listener with state := s.listener.state.step step } }, .ok)
  | .connect => s.connect n [.accept]
  | .connectLate => s.connect n [.acceptFailed .tooManyFiles, .door .rested, .accept]
  | .send c bytes => s.exchange c (bytes ++ [newline])
  | .write c bytes => (s.stepWith [.arrive c bytes], .ok)
  | .post c bytes => (s.stepWith [.arrive c (bytes ++ [newline])], .ok)
  | .finish c =>
    let (s, lines) := (s.stepWith [.finish c .closed]).takeReplies c
    (s, .replies lines false)
  | .abort c =>
    if s.isOpen c then (s.stepWith [.finish c (.broken .connectionReset)], .ok) else (s, .ok)
  | .release name =>
    let s := { s with listener := { s.listener with state := s.listener.state.release name } }
    let s := s.stepWith []
    (s, .running s.running)
  | .close => (s.stepWith (closing s.listener.door.closers.length), .ok)
  | .drop => ({ s.stepWith [.door .drop, .door .stopped] with dropped := true }, .ok)
  | .isClosed => (s, if s.dropped then .dropped else .closed s.listener.door.isClosed)

def connection? : ListeningStep → Option Nat
  | .send c _ | .write c _ | .post c _ | .finish c | .abort c => some c
  | _ => none

def step (n : Network) (s : Listening) (what : ListeningStep) :
    Except NoConnection (Listening × ListeningAnswer × Seen) :=
  let opened := s.listener.connections.length
  match (connection? what).filter (opened ≤ ·) with
  | some named => .error ⟨opened, named⟩
  | none =>
    let (next, answer) := s.perform n what
    let seen := ⟨next.listener.state.heard,
      (next.listener.reports.drop s.listener.reports.length).map fun r => r.2.log n.address⟩
    let listener := { next.listener with state := { next.listener.state with heard := [] } }
    .ok ({ next with listener }, answer, seen)

end Listening

end GameRelay.Scenario
