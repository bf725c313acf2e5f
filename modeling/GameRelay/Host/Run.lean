import GameRelay.Host.Args
import GameRelay.Host.Status
import GameRelay.Inbound.Listener
import GameRelay.Outbound.Caller

/-!
# One run of the host

The host dials the relay, binds its listening socket, asks the relay for its
game if it was given one, and serves until it is interrupted. Then it asks for
the removal of the game, closes its listening socket and exits. Where it cannot
wait for the interrupt at all, it exits at once. Only the host
itself asks for anything; the network may do whatever it does in between. An
interrupt before the host serves kills it where it is, and further ones are
ignored. A step that is not possible where it is asked for changes nothing.
-/

set_option autoImplicit false

namespace GameRelay.Host

open GameRelay.Inbound GameRelay.Outbound

inductive Exit where
  | finished
  | failed (error : RelayError)
  | deaf (error : SystemError)
  | killed
  deriving DecidableEq, Repr

inductive Stage where
  | dialing
  | binding
  | creating (task : Nat)
  | serving
  | removing (task : Nat)
  | closing (closer : Nat)
  | ended (exit : Exit)
  deriving DecidableEq, Repr

structure Run where
  stage : Stage := .dialing
  caller : Option Caller := none
  listener : Option (Listener Status) := none
  log : List LogLine := []

inductive RunEvent where
  | dialed (result : Except RelayError Unit)
  | bound (result : Except RelayError String)
  /-- The host looks whether what it waits for is done. -/
  | advance
  | interrupt
  /-- No handler can be registered for the interrupt. -/
  | deaf (error : SystemError)
  | outbound (event : CallerEvent)
  | inbound (event : ListenerEvent)

def announcement? : Notice → Option LogLine
  | .connected name => some ⟨.info, s!"Host connected to game {name}"⟩
  | .closed name => some ⟨.info, s!"Game {name} closed"⟩
  | .status => none

namespace Run

def say (r : Run) (level : Level) (message : String) : Run :=
  { r with log := r.log ++ [⟨level, message⟩] }

def leave (r : Run) (exit : Exit) : Run :=
  { r with
    stage := .ended exit
    caller := r.caller.map Caller.drop
    listener := r.listener.map Listener.drop }

def ask (r : Run) (what : Ask) (stage : Nat → Stage) : Run :=
  match r.caller with
  | none => r
  | some c => { r with stage := stage c.tasks.length, caller := some (c.step (.ask what)) }

def close (r : Run) : Run :=
  match r.listener with
  | none => r
  | some l =>
    { r with
      stage := .closing l.door.closers.length
      listener := some { l with door := l.door.step .close } }

def dialed (r : Run) : Except RelayError Unit → Run
  | .error error => r.leave (.failed error)
  | .ok () => { r with stage := .binding, caller := some {} }

def bound (args : Args) (r : Run) : Except RelayError String → Run
  | .error error => r.leave (.failed error)
  | .ok address =>
    let r := { r with stage := .serving, listener := some { state := {} } }
    let r := r.say .info s!"Relay calls accepted on {address}"
    match args.game with
    | some game => r.ask (.create game args.password) .creating
    | none => r

def interrupted (args : Args) (r : Run) : Run :=
  let r := r.say .info "Shutting down"
  match args.game with
  | some game => r.ask (.remove game) .removing
  | none => r.close

def accepted? (r : Run) (task : Nat) : Option Bool :=
  (r.caller.bind fun c => c.verdict? task).map Verdict.accepted

def closer? (r : Run) (k : Nat) : Option Closer := r.listener.bind fun l => l.door.closers[k]?

def created (args : Args) (r : Run) (accepted : Bool) : Run :=
  let game := args.game.getD ""
  let r := { r with stage := .serving }
  if accepted then r.say .info s!"Relay is hosting game {game}"
  else r.say .warn s!"Relay refused to host game {game}"

def removed (args : Args) (r : Run) (accepted : Bool) : Run :=
  let game := args.game.getD ""
  (if accepted then r else r.say .warn s!"Relay did not remove game {game}").close

def advance (args : Args) (r : Run) : Run :=
  match r.stage with
  | .creating task =>
    match r.accepted? task with
    | some accepted => r.created args accepted
    | none => r
  | .removing task =>
    match r.accepted? task with
    | some accepted => r.removed args accepted
    | none => r
  | .closing k => if r.closer? k = some .returned then r.leave .finished else r
  | _ => r

/-- What happens on the links by itself: no new task, and none is given up. -/
def outbound (r : Run) (event : CallerEvent) : Run :=
  match event, r.caller with
  | .ask _, _ | .abandon _, _ | _, none => r
  | event, some c => { r with caller := some (c.step event) }

/-- What happens on the listening side by itself: nobody else closes it. -/
def inbound (r : Run) (event : ListenerEvent) : Run :=
  match event, r.listener with
  | .door .close, _ | .door .drop, _ | .door (.abandon _), _ | _, none => r
  | event, some l =>
    let next := l.step consumer event
    { r with
      listener := some next
      log := r.log ++ (next.heard.drop l.heard.length).filterMap fun h => announcement? h.2 }

def step (args : Args) (r : Run) (event : RunEvent) : Run :=
  match r.stage, event with
  | .ended _, _ => r
  | .dialing, .dialed result => r.dialed result
  | .binding, .bound result => r.bound args result
  | .serving, .interrupt => r.interrupted args
  | .serving, .deaf error => r.leave (.deaf error)
  | .removing _, .interrupt | .closing _, .interrupt => r
  | _, .interrupt => r.leave .killed
  | _, .advance => r.advance args
  | _, .outbound event => r.outbound event
  | _, .inbound event => r.inbound event
  | _, _ => r

def run (args : Args) : Run → List RunEvent → Run
  | r, [] => r
  | r, event :: rest => run args (r.step args event) rest

theorem run_append (args : Args) (r : Run) (events more : List RunEvent) :
    r.run args (events ++ more) = (r.run args events).run args more := by
  induction events generalizing r with
  | nil => rfl
  | cons event rest ih => exact ih _

/-- A run that is over stays as it is. -/
theorem step_ended (args : Args) (r : Run) (event : RunEvent) (exit : Exit)
    (h : r.stage = .ended exit) : r.step args event = r := by
  unfold step
  rw [h]

end Run

def Exit.code? : Exit → Option Nat
  | .finished => some 0
  | .failed _ | .deaf _ => some 1
  | .killed => none

/-- What a run that failed leaves behind: the error, and the one beneath it. -/
def Exit.complaint? : Exit → Option String
  | .failed error =>
    some (match error.source? with
      | some source => s!"Error: {error.message}\n\nCaused by:\n    {source}"
      | none => s!"Error: {error.message}")
  | .deaf error => some s!"Error: {error.message}"
  | _ => none

end GameRelay.Host
