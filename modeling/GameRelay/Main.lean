import Std.Async.DNS
import Std.Async.Signal
import Std.Async.TCP
import Std.Async.Timer
import Std.Sync.Channel
import GameRelay.Address
import GameRelay.Client
import GameRelay.Host.Schedule

/-!
# The host program

Sockets, the interrupt and the standard streams. What is to be done is decided by
`Host.Run`: the program carries out what the run does next, and tells it what
happened.
-/

set_option autoImplicit false

namespace GameRelay.Program

open GameRelay.Host GameRelay.Inbound GameRelay.Outbound GameRelay.Text Std.Async

abbrev Socket := TCP.Socket.Client

abbrev Address := Std.Net.SocketAddress

inductive Message where
  | happened (event : RunEvent)
  | dialed (result : Except RelayError Socket)
  | accepted (socket : Socket)

instance : Inhabited Message := ⟨.happened .advance⟩

instance : Inhabited (Except RelayError Socket) := ⟨.error .shutdown⟩

inductive Place where
  | link (number : Nat)
  | connection (number : Nat)
  deriving DecidableEq

structure Outside where
  args : Args
  messages : Std.Channel Message
  links : Array Socket := #[]
  connections : Array (Socket × String) := #[]
  busy : List Place := []
  dialing : Bool := false
  attentive : Bool := false

/-! ## The network -/

/-- Numbers of errors may come negated, in 32 bits. -/
def errorNumber (code : UInt32) : Nat :=
  if code < 0x80000000 then code.toNat else (0 - code).toNat

def systemError : IO.Error → SystemError
  | .otherError code _ | .resourceBusy code _ | .resourceVanished code _
  | .unsupportedOperation code _ | .hardwareFault code _ | .unsatisfiedConstraints code _
  | .illegalOperation code _ | .protocolError code _ | .timeExpired code _
  | .alreadyExists _ code _ | .interrupted _ code _ | .noFileOrDirectory _ code _
  | .invalidArgument _ code _ | .permissionDenied _ code _ | .resourceExhausted _ code _
  | .inappropriateType _ code _ | .noSuchThing _ code _ => .code (errorNumber code)
  | .unexpectedEof => .reason "unexpected end of file"
  | .userError text => .reason text

def attempt {m : Type → Type} [Monad m] [MonadExceptOf IO.Error m] {α : Type} (act : m α) :
    m (Except SystemError α) :=
  tryCatch (act >>= fun a => pure (.ok a)) fun error => pure (.error (systemError error))

def withPort (port : Nat) : Std.Net.IPAddr → Address
  | .v4 ip => .v4 ⟨ip, port.toUInt16⟩
  | .v6 ip => .v6 ⟨ip, port.toUInt16⟩

def addressText (address : Address) : String :=
  match address.ipAddr with
  | .v4 ip => s!"{ip}:{address.port}"
  | .v6 ip => s!"[{ip}]:{address.port}"

def resolve (text : String) : Async (Except SystemError (List Address)) := do
  match SocketAddress.parse [] text with
  | .ok ⟨ip, port, _⟩ =>
    let found := ((Std.Net.IPv4Addr.ofString ip.text).map Std.Net.IPAddr.v4).or
      ((Std.Net.IPv6Addr.ofString ip.text).map Std.Net.IPAddr.v6)
    return .ok (found.toList.map (withPort port))
  | .error (.hostName host port) =>
    attempt do return (← DNS.getAddrInfo host "").toList.map (withPort port)
  | .error error => return .error error.toSystem

def firstOf {α : Type} (tried : Address → Async α) :
    List Address → Async (Except SystemError α)
  | [] => return .error (.reason "could not resolve to any address")
  | [address] => attempt (tried address)
  | address :: rest => do
    match ← attempt (tried address) with
    | .ok a => return .ok a
    | .error _ => firstOf tried rest

def atAnyOf {α : Type} (text : String) (tried : Address → Async α) :
    Async (Except SystemError α) := do
  match ← resolve text with
  | .error error => return .error error
  | .ok addresses => firstOf tried addresses

def connect (config : Config) : Async (Except RelayError Socket) := do
  let address := config.relayAddress
  let late : Async (Except RelayError Socket) := do
    sleep (.ofNat (config.dialTimeout.nanoseconds / 1000000))
    return .error (.connectTimeout address config.dialTimeout)
  let dial : Async (Except RelayError Socket) := do
    let result ← atAnyOf address fun target => do
      let socket ← TCP.Socket.Client.mk
      socket.connect target
      return socket
    return result.mapError (.connect address)
  Async.race late dial

def bind (config : Config) : Async (Except RelayError TCP.Socket.Server) := do
  let result ← atAnyOf config.listenAddress fun target => do
    let server ← TCP.Socket.Server.mk
    server.bind target
    server.listen 1024
    return server
  return result.mapError (.bind config.listenAddress)

/-! ## The tasks -/

def tell (messages : Std.Channel Message) (message : Message) : BaseIO Unit := do
  let _ ← messages.send message

def listen (messages : Std.Channel Message) (socket : Socket)
    (arrive : List UInt8 → RunEvent) (finish : Ending → RunEvent) : Async Unit := do
  let mut ending : Option Ending := none
  while ending.isNone do
    match ← attempt (socket.recv? 4096) with
    | .ok (some bytes) => tell messages (.happened (arrive bytes.toList))
    | .ok none => ending := some .closed
    | .error error => ending := some (.broken error)
  if let some why := ending then tell messages (.happened (finish why))

def accept (messages : Std.Channel Message) (server : TCP.Socket.Server) : Async Unit := do
  while true do
    match ← attempt server.accept with
    | .ok socket => tell messages (.accepted socket)
    | .error error =>
      tell messages (.happened (.inbound (.acceptFailed error)))
      sleep (.ofNat 100)
      tell messages (.happened (.inbound (.door .rested)))

def spawn (act : Async Unit) : IO Unit := do
  let _ ← act.toIO

namespace Outside

def addLink (o : Outside) (socket : Socket) : IO Outside := do
  let i := o.links.size
  spawn <| listen o.messages socket (fun bytes => .outbound (.transport i (.arrive bytes)))
    fun why => .outbound (.transport i (.finish why))
  return { o with links := o.links.push socket }

def addConnection (o : Outside) (socket : Socket) : IO Outside := do
  let c := o.connections.size
  let peer ← attempt socket.getPeerName
  spawn <| listen o.messages socket (fun bytes => .inbound (.arrive c bytes))
    fun why => .inbound (.finish c why)
  let name := match peer with | .ok address => addressText address | .error _ => "unknown"
  return { o with connections := o.connections.push (socket, name) }

def place? : RunEvent → Option Place
  | .outbound (.transport i (.write _)) | .outbound (.transport i (.writeFailed _)) =>
    some (.link i)
  | .inbound (.write c) | .inbound (.writeFailed c _) => some (.connection c)
  | _ => none

def may (o : Outside) (event : RunEvent) : Bool := !(place? event).any o.busy.contains

def writing? (o : Outside) (r : Run) :
    RunEvent → Option (Place × Socket × ByteArray × (SystemError → RunEvent))
  | .outbound (.transport i (.write count)) => do
    let link ← (← r.caller).links[i]?
    let bytes : ByteArray := ⟨(link.unwritten.take count).toArray⟩
    return (.link i, ← o.links[i]?, bytes, fun e => .outbound (.transport i (.writeFailed e)))
  | .inbound (.write c) => do
    let serving ← (← r.listener).connections[c]?
    let bytes := match serving.phase with
      | .replying response => response.line.toUTF8
      | _ => .empty
    return (.connection c, (← o.connections[c]?).1, bytes, fun e => .inbound (.writeFailed c e))
  | _ => none

def prepare (o : Outside) (r : Run) : IO Outside := do
  let mut o := o
  if r.dialing?.isSome && !o.dialing then
    spawn do tell o.messages (.dialed (← connect o.args.config))
    o := { o with dialing := true }
  if r.stage = .serving && !o.attentive then
    match ← attempt (do (← Signal.Waiter.mk .sigint true).wait) with
    | .error error => tell o.messages (.happened (.deaf error))
    | .ok interrupt => spawn do
      let _ ← Async.ofAsyncTask interrupt
      tell o.messages (.happened .interrupt)
    o := { o with attentive := true }
  return o

def step (o : Outside) (r : Run) (event : RunEvent) : IO Run := do
  let next := r.step o.args event
  let peer (c : Nat) : String := ((o.connections[c]?).map Prod.snd).getD "unknown"
  for line in r.news o.args.config.relayAddress peer next do
    IO.println line.written.text
  (← IO.getStdout).flush
  return next

def dialed (o : Outside) (r : Run) (result : Except RelayError Socket) : IO (Outside × Run) := do
  let o := { o with dialing := false }
  match r.dialing? with
  | none => return (o, r)
  | some task =>
    let replaced := (r.caller.map Caller.installed).getD 0
    let r ← o.step r (.outbound (.dialed task (result.map fun _ => ())))
    match result with
    | .error _ => return (o, r)
    | .ok socket =>
      if let some old := o.links[replaced]? then
        let _ ← attempt old.shutdown.block
      return (← o.addLink socket, ← o.step r (.outbound (.reap replaced)))

def accepted (o : Outside) (r : Run) (socket : Socket) : IO (Outside × Run) := do
  let count (r : Run) : Nat := (r.listener.map fun l => l.connections.length).getD 0
  let next ← o.step r (.inbound .accept)
  if count next = count r then return (o, next) else return (← o.addConnection socket, next)

partial def loop (o : Outside) (r : Run) : IO Exit := do
  if let .ended exit := r.stage then return exit
  match r.next? o.may with
  | some event =>
    match o.writing? r event with
    | none => loop o (← o.step r event)
    | some (place, socket, bytes, failed) =>
      spawn do
        match ← attempt (socket.send bytes) with
        | .ok () => tell o.messages (.happened event)
        | .error error => tell o.messages (.happened (failed error))
      loop { o with busy := place :: o.busy } r
  | none =>
    let o ← o.prepare r
    match ← o.messages.sync.recv with
    | .happened event =>
      let busy := match place? event with
        | some place => o.busy.erase place
        | none => o.busy
      loop { o with busy } (← o.step r event)
    | .dialed result =>
      let (o, r) ← o.dialed r result
      loop o r
    | .accepted socket =>
      let (o, r) ← o.accepted r socket
      loop o r

end Outside

def run (args : Args) : IO Exit := do
  let o : Outside := { args, messages := ← Std.Channel.new }
  match ← (connect args.config).block with
  | .error error => o.loop (← o.step {} (.dialed (.error error)))
  | .ok socket =>
    let o ← o.addLink socket
    let r ← o.step {} (.dialed (.ok ()))
    match ← (bind args.config).block with
    | .error error => o.loop (← o.step r (.bound (.error error)))
    | .ok server =>
      spawn (accept o.messages server)
      o.loop (← o.step r (.bound (.ok (addressText (← server.getSockName)))))

end GameRelay.Program

open GameRelay GameRelay.Host in
/-- Hosts games through a relay until it is interrupted. -/
def main (arguments : List String) : IO UInt32 := do
  match Args.parse arguments with
  | .error .help =>
    IO.println ArgError.help.message
    return 0
  | .error error =>
    IO.eprintln error.message
    return 2
  | .ok args =>
    let exit ← Program.run args
    if let .failed error := exit then IO.println (Client.notStarted error).written.text
    if let some complaint := exit.complaint? then IO.eprintln complaint
    return (exit.code?.getD 130).toUInt32
