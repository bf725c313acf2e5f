import GameRelay.Inbound.Listener
import GameRelay.Outbound.Caller

/-!
# The client

The outbound side calls the relay, the inbound side answers it. They share
nothing: a step of one leaves the other as it is. A client exists only once the
relay was dialed and the listening socket bound, in this order.
-/

set_option autoImplicit false

namespace GameRelay

open GameRelay.Inbound GameRelay.Outbound

structure Client (σ : Type) where
  config : Config
  caller : Caller
  listener : Listener σ

inductive ClientEvent where
  | outbound (event : CallerEvent)
  | inbound (event : ListenerEvent)

namespace Client

variable {σ : Type}

def fresh (config : Config) (state : σ) : Client σ :=
  { config, caller := {}, listener := { state } }

def start (config : Config) (state : σ) (dialed bound : Except RelayError Unit) :
    Except RelayError (Client σ) := do
  dialed
  bound
  return fresh config state

def notStarted (error : RelayError) : LogLine :=
  ⟨.error, s!"Relay client not started: {error.message}"⟩

def step (consumer : Consumer σ) (c : Client σ) : ClientEvent → Client σ
  | .outbound event => { c with caller := c.caller.step event }
  | .inbound event => { c with listener := c.listener.step consumer event }

def run (consumer : Consumer σ) : Client σ → List ClientEvent → Client σ
  | c, [] => c
  | c, event :: rest => run consumer (c.step consumer event) rest

end Client

end GameRelay
