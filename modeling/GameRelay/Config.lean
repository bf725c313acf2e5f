import GameRelay.Text.Duration

/-!
# Where the relay is, and where it calls back

By convention the relay calls back on the port after its own; a relay on the
last port calls back on the one before.
-/

set_option autoImplicit false

namespace GameRelay

open GameRelay.Text

structure Config where
  relayHost : String
  relayPort : UInt16
  listenHost : String
  /-- Port zero leaves the choice to the system. -/
  listenPort : UInt16
  dialTimeout : Duration
  deriving DecidableEq, Repr

namespace Config

def defaultRelayHost : String := "localhost"

def defaultRelayPort : UInt16 := 7398

def defaultListenHost : String := "0.0.0.0"

def defaultDialTimeout : Duration := .ofSeconds 10

/-- The port beside the relay's: the next one, unless there is none. Where arithmetic is checked
for overflow, port 0 is an error, since the port before it is computed as well; where it is not,
the one beside it is port 1, as here. -/
def besidePort (port : UInt16) : UInt16 :=
  if port.toNat + 1 < UInt16.size then port + 1 else port - 1

def default : Config where
  relayHost := defaultRelayHost
  relayPort := defaultRelayPort
  listenHost := defaultListenHost
  listenPort := besidePort defaultRelayPort
  dialTimeout := defaultDialTimeout

def forRelay (host : String) (port : UInt16) : Config :=
  { default with relayHost := host, relayPort := port, listenPort := besidePort port }

def withListener (config : Config) (host : String) (port : UInt16) : Config :=
  { config with listenHost := host, listenPort := port }

def relayAddress (config : Config) : String := s!"{config.relayHost}:{config.relayPort}"

def listenAddress (config : Config) : String := s!"{config.listenHost}:{config.listenPort}"

end Config

end GameRelay
