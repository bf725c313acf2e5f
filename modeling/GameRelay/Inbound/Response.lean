import GameRelay.Inbound.Consumer
import GameRelay.Frame.Response
import GameRelay.Log
import GameRelay.Text.Stream

/-!
# Answering a request

A request that is turned down never reaches the consumer. A handler that panics
costs its own request its result and nothing else: the relay gets an error that
names the task in which the handler ran.
-/

set_option autoImplicit false

namespace GameRelay.Inbound

open GameRelay.Frame GameRelay.Json GameRelay.Text

inductive Report where
  | rejected (method : String) (why : Rejection)
  | callbackFailed (method failure : String)
  | notRequest (error : ParseError)
  | readFailed (error : ReadError)
  | writeFailed (error : SystemError)
  | acceptFailed (error : SystemError)
  deriving DecidableEq, Repr

def Report.log (peer : String) : Report → LogLine
  | .rejected method why => ⟨.warn, s!"Rejected relay call {method}: {why.message}"⟩
  | .callbackFailed method failure =>
    ⟨.error, s!"Callback failed while handling {method}: {failure}"⟩
  | .notRequest error => ⟨.error, s!"Failed to parse rpc request from {peer}: {error.message}"⟩
  | .readFailed error => ⟨.error, s!"Relay rpc connection from {peer} read error: {error.message}"⟩
  | .writeFailed error => ⟨.error, s!"Failed to write rpc response to {peer}: {error.message}"⟩
  | .acceptFailed error => ⟨.warn, s!"Error accepting relay rpc connection: {error.message}"⟩

def taskFailure (task : String) : Option String → String
  | some text => s!"task {task} panicked with message {quoted text}"
  | none => s!"task {task} panicked"

def Call.respond (call : Call) (request : Request) : Reaction → Response
  | .returned value => .ok request.id (call.result value)
  | .panicked task text => .failed request.id s!"callback failed: {taskFailure task text}"

def Reaction.reports (request : Request) : Reaction → List Report
  | .returned _ => []
  | .panicked task text => [.callbackFailed request.method (taskFailure task text)]

structure Answer (σ : Type) where
  state : σ
  response : Response
  notices : List Notice
  reports : List Report

def respond {σ : Type} (consumer : Consumer σ) (state : σ) (request : Request) : Answer σ :=
  match Call.ofRequest request with
  | .error why =>
    ⟨state, .failed request.id why.message, [], [.rejected request.method why]⟩
  | .ok call =>
    let (state, reaction) := consumer.handle state call.notice
    ⟨state, call.respond request reaction, [call.notice], reaction.reports request⟩

end GameRelay.Inbound
