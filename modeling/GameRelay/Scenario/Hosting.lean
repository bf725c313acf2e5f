import GameRelay.Host.Schedule
import GameRelay.Scenario.Clients

/-!
# The host, by script

The host is started on the machine of a scripted relay. Once it serves, lines
are sent to it over one connection, and then it is interrupted. A host that
never comes to serve is interrupted where it is.
-/

set_option autoImplicit false

namespace GameRelay.Scenario

open GameRelay.Host GameRelay.Inbound GameRelay.Outbound GameRelay.Text

/-- The relay's port. It shows only where the host listens on the one after it. -/
def relayPort : UInt16 := Config.defaultRelayPort

def givenArguments : List String :=
  ["--relay-host", "127.0.0.1", "--listen-host", "127.0.0.1", "--relay-port", toString relayPort]

structure Hosting where
  run : Run := {}
  relay : Relay := {}
  taken : List Nat := [0]

structure HostSeen where
  replies : List String := []
  listensOnNextPort : Option Bool := none
  exit : Option Nat
  stderr : String
  requests : List (Nat × String) := []
  debugLogged : Bool := false
  /-- The host's own log as it is written, the first line of each message. -/
  log : List LogLine := []

namespace Hosting

def step (args : Args) (s : Hosting) (event : RunEvent) : Hosting :=
  { s with run := s.run.step args event }

def settle (n : Network) (s : Hosting) : Hosting :=
  match s.run.caller with
  | none => s
  | some caller =>
    let w := World.settle n { caller, relay := s.relay, taken := s.taken }
    { run := { s.run with caller := some w.caller }, relay := w.relay, taken := w.taken }

def begin (n : Network) (args : Args) (station : Station) (s : Hosting) : Hosting :=
  let dialed := n.dial station args.config.dialTimeout
  let s := s.step args (.dialed dialed)
  match dialed with
  | .error _ => s
  | .ok () =>
    let bound := (n.bind args.config.listenAddress).map fun _ => n.address
    (({ s with relay := s.relay.accept }.step args (.bound bound)).settle n).step args .advance

def serve (args : Args) : Nat → Hosting → Hosting
  | 0, s => s
  | fuel + 1, s =>
    match s.run.next? fun _ => true with
    | none => s
    | some event => serve args fuel (s.step args event)

/-- Beside the connections the host needs a few steps of its own to close. -/
def serveAll (args : Args) (s : Hosting) : Hosting :=
  serve args (((s.run.listener.map Listener.fuel).getD 0) + 8) s

def send (n : Network) (args : Args) (s : Hosting) (lines : List (List UInt8)) : Hosting :=
  let bytes := lines.flatMap fun line => line ++ [newline]
  match n.connect (s.run.listener.any fun l => l.door.isOpen) with
  | .error _ => s
  | .ok () =>
    ((s.step args (.inbound .accept)).step args (.inbound (.arrive 0 bytes))).serveAll args

def interrupt (n : Network) (args : Args) (s : Hosting) : Hosting :=
  ((s.step args .interrupt).settle n).serveAll args

def replies (s : Hosting) : List String :=
  match s.run.listener.bind fun l => l.connections[0]? with
  | some serving => serving.written.map fun r => String.ofList r.chars
  | none => []

/-- Below the level of the log stand every request that was sent, every notice,
and the end of every connection. -/
def isDetailed (r : Run) : Bool :=
  (r.caller.any fun c => c.links.any fun l => !l.queued.isEmpty) ||
    (r.listener.any fun l => !l.heard.isEmpty || l.connections.any fun s => !s.isOpen)

def follow (n : Network) (args : Args) (station : Station) (relay : Relay)
    (lines : List (List UInt8)) : HostSeen :=
  let s := begin n args station { relay }
  let s := match s.run.stage with
    | .serving => if lines.isEmpty then s else s.send n args lines
    | _ => s
  let s := s.interrupt n args
  let exit := match s.run.stage with | .ended exit => some exit | _ => none
  { replies := s.replies
    listensOnNextPort :=
      s.run.listener.map fun _ => args.config.listenPort.toNat == relayPort.toNat + 1
    exit := exit.bind Exit.code?
    stderr := firstLine ((exit.bind Exit.complaint?).getD "")
    requests := s.relay.requests
    debugLogged := !args.quiet && isDetailed s.run
    log := s.run.log.map fun line =>
      { line.written with message := firstLine line.written.message } }

def start (n : Network) (arguments : List String) (station : Station) (relay : Relay)
    (lines : List (List UInt8)) : HostSeen :=
  match Args.parse (givenArguments ++ arguments) with
  | .ok args => follow n args station relay lines
  | .error .help => { exit := some 0, stderr := "" }
  | .error error => { exit := some 2, stderr := firstLine error.message }

end Hosting

end GameRelay.Scenario
