import GameRelay.Inbound.Response
import GameRelay.Text.Blank

/-!
# Serving one connection

The lines of a connection are served in order. A blank line is passed over, a
line that is no request is reported and passed over, and a line that is not
well-formed text ends the connection. `serve` answers a whole stream at once;
`Serving` takes the same way in small steps, so that a handler may block between
them and a reply may fail to be written.
-/

set_option autoImplicit false

namespace GameRelay.Inbound

open GameRelay.Frame GameRelay.Json GameRelay.Text

inductive Incoming where
  | blank
  | request (request : Request)
  | notRequest (error : ParseError)
  | malformed (what : Malformed)

def Incoming.ofLine (bytes : List UInt8) : Incoming :=
  match decodeLine bytes with
  | .error what => .malformed what
  | .ok text =>
    if isBlank text.toList then .blank
    else match Request.parse text with
      | .ok r => .request r
      | .error e => .notRequest e

/-! ## A whole stream -/

structure ServedStream (σ : Type) where
  state : σ
  responses : List Response
  notices : List Notice
  reports : List Report

def ServedStream.after {σ : Type} (answer : Answer σ) (rest : ServedStream σ) : ServedStream σ :=
  ⟨rest.state, answer.response :: rest.responses, answer.notices ++ rest.notices,
    answer.reports ++ rest.reports⟩

def ServedStream.reporting {σ : Type} (report : Report) (rest : ServedStream σ) : ServedStream σ :=
  { rest with reports := report :: rest.reports }

def serveLines {σ : Type} (consumer : Consumer σ) : σ → List (List UInt8) → ServedStream σ
  | state, [] => ⟨state, [], [], []⟩
  | state, line :: rest =>
    match Incoming.ofLine line with
    | .blank => serveLines consumer state rest
    | .notRequest error =>
      (serveLines consumer state rest).reporting (.notRequest error)
    | .malformed what => ⟨state, [], [], [.readFailed (.malformed what)]⟩
    | .request request =>
      let answer := respond consumer state request
      (serveLines consumer answer.state rest).after answer

def serve {σ : Type} (consumer : Consumer σ) (state : σ) (bytes : List UInt8) : ServedStream σ :=
  serveLines consumer state (lines bytes)

/-! ## Small steps -/

inductive Phase where
  | reading
  /-- The handler has been called and has not run yet. -/
  | calling (request : Request) (call : Call)
  | replying (response : Response)
  | ended

structure Serving where
  stream : Stream := {}
  phase : Phase := .reading
  written : List Response := []

namespace Serving

def isOpen (s : Serving) : Bool :=
  match s.phase with
  | .ended => false
  | _ => true

def arrive (s : Serving) (bytes : List UInt8) : Serving :=
  { s with stream := s.stream.arrive bytes }

def finish (s : Serving) (why : Ending) : Serving :=
  { s with stream := s.stream.finish why }

def read (s : Serving) : Serving × List Report :=
  match s.phase with
  | .reading =>
    match s.stream.read with
    | (.nothing, _) => (s, [])
    | (.ended .closed, stream) => ({ s with stream, phase := .ended }, [])
    | (.ended (.broken error), stream) =>
      ({ s with stream, phase := .ended }, [.readFailed (.system error)])
    | (.line bytes, stream) =>
      match Incoming.ofLine bytes with
      | .blank => ({ s with stream }, [])
      | .notRequest error => ({ s with stream }, [.notRequest error])
      | .malformed what =>
        ({ s with stream, phase := .ended }, [.readFailed (.malformed what)])
      | .request request =>
        match Call.ofRequest request with
        | .ok call => ({ s with stream, phase := .calling request call }, [])
        | .error why =>
          ({ s with stream, phase := .replying (.failed request.id why.message) },
            [.rejected request.method why])
  | _ => (s, [])

def waiting? (s : Serving) : Option Notice :=
  match s.phase with
  | .calling _ call => some call.notice
  | _ => none

def settle (s : Serving) (reaction : Reaction) : Serving × List Report :=
  match s.phase with
  | .calling request call =>
    ({ s with phase := .replying (call.respond request reaction) }, reaction.reports request)
  | _ => (s, [])

def write (s : Serving) : Serving :=
  match s.phase with
  | .replying response => { s with phase := .reading, written := s.written ++ [response] }
  | _ => s

def failWrite (s : Serving) (error : SystemError) : Serving × List Report :=
  match s.phase with
  | .replying _ => ({ s with phase := .ended }, [.writeFailed error])
  | _ => (s, [])

end Serving

end GameRelay.Inbound
