import GameRelay.Inbound.Door
import GameRelay.Inbound.Serving

/-!
# The inbound listener

Any number of connections, each served by a task of its own, and one consumer
that all of them share. The steps of different connections interleave freely. A
step that is not possible where it is asked for changes nothing.
-/

set_option autoImplicit false

namespace GameRelay.Inbound

open GameRelay.Text

structure Listener (σ : Type) where
  door : Door := {}
  state : σ
  connections : List Serving := []
  heard : List (Nat × Notice) := []
  /-- What was reported; accepting belongs to no connection. -/
  reports : List (Option Nat × Report) := []

inductive ListenerEvent where
  | accept
  | acceptFailed (error : SystemError)
  | arrive (connection : Nat) (bytes : List UInt8)
  | finish (connection : Nat) (why : Ending)
  | read (connection : Nat)
  /-- The handler that the connection waits for runs to its end. -/
  | handle (connection : Nat)
  | write (connection : Nat)
  | writeFailed (connection : Nat) (error : SystemError)
  | door (event : DoorEvent)
  deriving DecidableEq, Repr

namespace Listener

variable {σ : Type}

def onConnection (l : Listener σ) (c : Nat) (f : Serving → Serving × List Report) : Listener σ :=
  match l.connections[c]? with
  | none => l
  | some s =>
    { l with
      connections := l.connections.set c (f s).1
      reports := l.reports ++ (f s).2.map fun report => (some c, report) }

def handle (consumer : Consumer σ) (l : Listener σ) (c : Nat) : Listener σ :=
  match l.connections[c]?.bind Serving.waiting? with
  | none => l
  | some notice =>
    let (state, reaction) := consumer.handle l.state notice
    ({ l with state, heard := l.heard ++ [(c, notice)] } : Listener σ).onConnection c
      fun s => s.settle reaction

def step (consumer : Consumer σ) (l : Listener σ) : ListenerEvent → Listener σ
  | .accept => if l.door.accepts then { l with connections := l.connections ++ [{}] } else l
  | .acceptFailed error =>
    if l.door.accepts then
      { l with
        door := l.door.rest
        reports := l.reports ++ [(none, .acceptFailed error)] }
    else l
  | .arrive c bytes => l.onConnection c fun s => (s.arrive bytes, [])
  | .finish c why => l.onConnection c fun s => (s.finish why, [])
  | .read c => l.onConnection c Serving.read
  | .handle c => l.handle consumer c
  | .write c => l.onConnection c fun s => (s.write, [])
  | .writeFailed c error => l.onConnection c fun s => s.failWrite error
  | .door event => { l with door := l.door.step event }

def run (consumer : Consumer σ) : Listener σ → List ListenerEvent → Listener σ
  | l, [] => l
  | l, event :: rest => run consumer (l.step consumer event) rest

theorem run_append (consumer : Consumer σ) (l : Listener σ) (events more : List ListenerEvent) :
    l.run consumer (events ++ more) = (l.run consumer events).run consumer more := by
  induction events generalizing l with
  | nil => rfl
  | cons event rest ih => exact ih _

def drop (l : Listener σ) : Listener σ := { l with door := l.door.step .drop }

/-- A step of one connection leaves the others as they are. -/
theorem onConnection_other (l : Listener σ) (c d : Nat) (f : Serving → Serving × List Report)
    (h : d ≠ c) : (l.onConnection c f).connections[d]? = l.connections[d]? := by
  unfold onConnection
  split
  · rfl
  · simp [List.getElem?_set_ne (Ne.symm h)]

end Listener

end GameRelay.Inbound
