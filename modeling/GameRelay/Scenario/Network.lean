import GameRelay.Config
import GameRelay.Address
import GameRelay.RelayError

/-!
# The network of a scenario

What a scenario takes for granted about the machine it runs on: whether a
connection can be opened at all, which addresses can be bound, and under which
name peers are reported.
-/

set_option autoImplicit false

namespace GameRelay.Scenario

open GameRelay.Text

structure Network where
  /-- Why no connection can be opened, if none can. -/
  outage : Option SystemError
  /-- Which addresses are the machine's own, or taken for such. -/
  owns : Ip → Bool
  interfaces : List String := ["lo"]
  address : String := "127.0.0.1:7398"

inductive Station where
  | relay
  /-- Nobody listens. -/
  | refusing
  /-- Connecting gets no answer. -/
  | silent
  deriving DecidableEq, Repr

namespace Network

def loopback : Network where
  outage := none
  owns ip := ip.isLoopback

/-- A machine whose interfaces are all down. It takes every IPv4 address for its
own, and no IPv6 address. -/
def isolated : Network where
  outage := some .networkUnreachable
  owns ip := ip.isV4

def connect (n : Network) (listening : Bool) : Except SystemError Unit :=
  match n.outage with
  | some error => .error error
  | none => if listening then .ok () else .error .connectionRefused

def dial (n : Network) (station : Station) (timeout : Duration) : Except RelayError Unit :=
  match n.outage, station with
  | some error, _ => .error (.connect n.address error)
  | none, .relay => .ok ()
  | none, .refusing => .error (.connect n.address .connectionRefused)
  | none, .silent => .error (.connectTimeout n.address timeout)

/-- Why an address cannot be bound. IPv4 addresses of groups and broadcasts can be
bound anywhere, IPv6 addresses of groups nowhere, and an address that means one
link only together with its interface. -/
def refusal? (n : Network) (socket : SocketAddress) : Option SystemError :=
  let ip := socket.ip.unmapped
  let notLocal := if n.owns ip then none else some .addressNotLocal
  if ip.isUnspecified then none
  else if ip.isV4 then if ip.isGroup || ip.isBroadcast then none else notLocal
  else if ip.isGroup then some .invalidArgument
  else if ip.isOnLink then
    if socket.scope = 0 then some .invalidArgument
    else if n.interfaces.length < socket.scope then some .noSuchDevice
    else notLocal
  else notLocal

def bind (n : Network) (address : String) : Except RelayError SocketAddress :=
  match SocketAddress.parse n.interfaces address with
  | .error error => .error (.bind address error.toSystem)
  | .ok socket =>
    match n.refusal? socket with
    | none => .ok socket
    | some error => .error (.bind address error)

end Network

end GameRelay.Scenario
