import GameRelay.Json.Record
import GameRelay.SystemError
import GameRelay.Text.Duration

/-!
# What can go wrong between us and the relay

A refused call (`shutdown`) was never sent; a call that was cut off
(`disconnected`) may have been acted on. Only the former earns a reconnect.
-/

set_option autoImplicit false

namespace GameRelay

open GameRelay.Text

inductive DecodeError where
  | value (what : Json.Mismatch)
  | text (what : Json.ParseError)
  deriving DecidableEq, Repr

def DecodeError.message : DecodeError → String
  | .value what => what.message
  | .text what => what.message

inductive RelayError where
  | connect (address : String) (source : SystemError)
  | connectTimeout (address : String) (timeout : Duration)
  | shutdown
  | disconnected
  | lostConnection
  | remote (message : String)
  | encode (source : Json.Cause)
  | decode (source : DecodeError)
  | bind (address : String) (source : SystemError)
  deriving DecidableEq, Repr

namespace RelayError

def unencodable : RelayError := .encode .keyNotText

def message : RelayError → String
  | .connect address source =>
    s!"unable to connect to relay server at {address}: {source.message}"
  | .connectTimeout address timeout =>
    s!"timed out after {timeout.text} connecting to relay server at {address}"
  | .shutdown => "connection to relay is shut down"
  | .disconnected => "connection to relay was lost while the call was in flight"
  | .lostConnection => "lost connection to relay and unable to reconnect"
  | .remote message => s!"relay returned an error: {message}"
  | .encode source => s!"failed to encode rpc frame: {source.message}"
  | .decode source => s!"failed to decode rpc result: {source.message}"
  | .bind address source => s!"unable to listen for rpc calls on {address}: {source.message}"

def source? : RelayError → Option String
  | .connect _ source | .bind _ source => some source.message
  | .encode source => some source.message
  | .decode source => some source.message
  | _ => none

def isShutdown : RelayError → Bool
  | .shutdown => true
  | _ => false

/-- The caller should consider the session with the relay abandoned. -/
def isConnectionLost : RelayError → Bool
  | .lostConnection => true
  | _ => false

end RelayError

end GameRelay
