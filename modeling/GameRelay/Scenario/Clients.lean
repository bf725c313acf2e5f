import GameRelay.Client
import GameRelay.Scenario.Calls
import GameRelay.Scenario.Listening
import GameRelay.Scenario.Relay

/-!
# A client and its relay, by script

After each step of the script both sides go on until they rest: tasks take the
lock in the order in which they came, links are written and read, dials end, and
the relay reacts to every request it receives.
-/

set_option autoImplicit false

namespace GameRelay.Scenario

open GameRelay.Inbound GameRelay.Outbound GameRelay.Text

structure World where
  caller : Caller := {}
  relay : Relay := {}
  taken : List Nat := [0]

namespace World

def endDial (n : Network) (w : World) (t : Nat) : World :=
  let station := if w.relay.listening then Station.relay else .refusing
  let result := n.dial station ⟨0⟩
  let replaced := w.caller.installed
  match result with
  | .error _ => { w with caller := w.caller.step (.dialed t result) }
  | .ok () =>
    { w with
      caller := (w.caller.step (.dialed t result)).step (.reap replaced)
      relay := w.relay.accept.closeSide replaced
      taken := w.taken ++ [0] }

def act (w : World) (side : Nat) (line : String) : Action → World
  | .send pieces =>
    if w.relay.isOpen side then
      { w with caller := w.caller.step (.transport side (.arrive (Relay.fill pieces line))) }
    else w
  | .hangup =>
    if w.relay.isOpen side then
      { w with
        caller := w.caller.step (.transport side (.finish .closed))
        relay := w.relay.closeSide side }
    else w
  | .abort =>
    if w.relay.isOpen side then
      { w with
        caller := w.caller.step (.transport side (.finish (.broken .connectionReset)))
        relay := w.relay.closeSide side }
    else w

def receive (w : World) (side : Nat) (bytes : List UInt8) : World :=
  if w.relay.isOpen side then
    let line := String.ofList (((decodeLine bytes).toOption.getD "").toList.filter (· != '\n'))
    let (relay, reaction) := w.relay.receive side line
    reaction.foldl (fun w action => w.act side line action) { w with relay }
  else w

def take (w : World) (side : Nat) : World :=
  match w.caller.links[side]?, w.taken[side]? with
  | some l, some taken =>
    let w := { w with taken := w.taken.set side l.written.length }
    (lines (l.written.drop taken)).foldl (fun w bytes => w.receive side bytes) w
  | _, _ => w

def untaken? (w : World) : Option Nat :=
  (List.range w.caller.links.length).find? fun side =>
    match w.caller.links[side]?, w.taken[side]? with
    | some l, some taken => taken < l.written.length
    | _, _ => false

def next? (n : Network) (w : World) : Option World :=
  match w.caller.next? fun _ => true with
  | some event => some { w with caller := w.caller.step event }
  | none =>
    match w.untaken? with
    | some side => some (w.take side)
    | none => w.caller.dialing?.map fun t => w.endDial n t

def rest (n : Network) : Nat → World → World
  | 0, w => w
  | fuel + 1, w =>
    match w.next? n with
    | none => w
    | some next => rest n fuel next

/-- Reading a line takes two steps; the relay sends what its reactions hold. -/
def arriving (w : World) : Nat :=
  let reactions := w.relay.standing :: w.relay.standing :: w.relay.script
  w.caller.links.foldl (fun steps l => steps + 2 * l.incoming.ready.length + 4) 0
    + 2 * reactions.foldl (fun size reaction => size + Reaction.size reaction) 0

/-- Twenty steps take a task through two attempts and a dial. -/
def settle (n : Network) (w : World) : World :=
  rest n (20 * (w.caller.tasks.length + 1) + w.arriving * (w.caller.tasks.length + 1)) w

end World

/-! ## The script -/

inductive ListenAt where
  | free
  | taken
  | host (address : String)

inductive ClientStep where
  | consumer (step : ConsumerStep)
  | ask (what : Ask) (abandon : Bool)
  /-- Two tasks at the same time, the first one first. -/
  | both (name password : String)
  | close
  | isListening
  | relayActs (action : Action)
  | stopRelay
  | startRelay
  | inbound (bytes : List UInt8) (keep : Bool)

inductive ClientAnswer where
  | ok
  | verdicts (results : List (Option Verdict))
  | flag (value : Bool)
  | refused (error : SystemError)
  | replies (lines : List String) (isOpen : Bool)

structure Clients where
  world : World := {}
  listening : Listening := {}
  /-- The inbound connection that is kept for the next exchange. -/
  kept : Option Nat := none

structure ClientSeen where
  requests : List (Nat × String)
  connections : Nat
  openConnections : Nat
  events : List Notice
  log : List LogLine

namespace Clients

def asking (n : Network) (s : Clients) (asks : List Ask) : Clients :=
  let caller := asks.foldl (fun c what => c.step (.ask what)) s.world.caller
  { s with world := { s.world with caller }.settle n }

def giveUp (n : Network) (s : Clients) (t : Nat) : Clients :=
  match s.world.caller.verdict? t with
  | some _ => s
  | none =>
    let world := { s.world with caller := s.world.caller.step (.abandon t) }
    { s with world := world.settle n }

def inbound (n : Network) (s : Clients) (bytes : List UInt8) (keep : Bool) :
    Clients × ClientAnswer :=
  let (listening, connected) : Listening × Except SystemError Nat :=
    match s.kept with
    | some c => (s.listening, .ok c)
    | none =>
      match s.listening.connect n [.accept] with
      | (l, .connection c) => (l, .ok c)
      | (l, .refused error) => (l, .error error)
      | (l, _) => (l, .error .connectionRefused)
  match connected with
  | .error error => ({ s with listening }, .refused error)
  | .ok c =>
    match listening.exchange c (bytes ++ [newline]) with
    | (l, .replies lines isOpen) =>
      if keep then ({ s with listening := l, kept := some c }, .replies lines isOpen)
      else
        let (l, _) := l.perform n (.finish c)
        ({ s with listening := l, kept := none }, .replies lines isOpen)
    | (l, _) => ({ s with listening := l }, .ok)

def isListening (s : Clients) : Bool := !s.listening.listener.door.isClosed

def perform (n : Network) (s : Clients) : ClientStep → Clients × ClientAnswer
  | .consumer step => ({ s with listening := (s.listening.perform n (.consumer step)).1 }, .ok)
  | .ask what abandon =>
    let t := s.world.caller.tasks.length
    let s := s.asking n [what]
    let s := if abandon then s.giveUp n t else s
    (s, .verdicts [s.world.caller.verdict? t])
  | .both name password =>
    let t := s.world.caller.tasks.length
    let s := s.asking n [.create name password, .remove name]
    (s, .verdicts [s.world.caller.verdict? t, s.world.caller.verdict? (t + 1)])
  | .close => ({ s with listening := (s.listening.perform n .close).1 }, .ok)
  | .isListening => (s, .flag s.isListening)
  | .relayActs action =>
    match s.world.relay.newestOpen? with
    | none => (s, .flag false)
    | some side => ({ s with world := (s.world.act side "" action).settle n }, .flag true)
  | .stopRelay =>
    ({ s with world := { s.world with relay := { s.world.relay with listening := false } } }, .ok)
  | .startRelay =>
    ({ s with world :=
        { s.world with relay := { s.world.relay with listening := true, limit := none } } }, .ok)
  | .inbound bytes keep => s.inbound n bytes keep

def seen (s : Clients) : ClientSeen where
  requests := []
  connections := s.world.relay.accepted
  openConnections := s.world.relay.openSides
  events := []
  log := []

def step (n : Network) (s : Clients) (what : ClientStep) : Clients × ClientAnswer × ClientSeen :=
  let (next, answer) := s.perform n what
  let relay := next.world.relay
  let outbound := (next.world.caller.reports.drop s.world.caller.reports.length).map
    (CallerReport.log n.address)
  let inbound := (next.listening.listener.reports.drop
    s.listening.listener.reports.length).map fun r => r.2.log n.address
  let seen : ClientSeen := {
    requests := relay.requests.drop s.world.relay.requests.length
    connections := relay.accepted
    openConnections := relay.openSides
    events := next.listening.listener.state.heard
    log := outbound ++ inbound }
  let listener := { next.listening.listener with
    state := { next.listening.listener.state with heard := [] } }
  ({ next with listening := { next.listening with listener } }, answer, seen)

def bound (n : Network) : ListenAt → Except RelayError Unit
  | .free => .ok ()
  | .taken => .error (.bind n.address .addressInUse)
  | .host address => (n.bind s!"{address}:0").map fun _ => ()

structure NotStarted where
  error : RelayError
  connections : Nat

def start (n : Network) (relay : Relay) (station : Station) (timeout : Duration)
    (listen : ListenAt) : Except NotStarted Clients :=
  let config := { Config.default with dialTimeout := timeout }
  let dialed := n.dial station timeout
  match Client.start config ({} : Script) dialed (bound n listen) with
  | .error error =>
    .error ⟨error, match dialed with | .ok () => 1 | .error _ => 0⟩
  | .ok client =>
    .ok { world := { caller := client.caller, relay := relay.accept }
          listening := { listener := client.listener } }

end Clients

end GameRelay.Scenario
