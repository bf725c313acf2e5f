import GameRelay.Frame.Result
import GameRelay.Frame.Request
import GameRelay.Log
import GameRelay.Text.Stream

/-!
# One connection to the relay

Any number of calls share a link. Each takes the next id, enters the table of
pending calls, queues its line and waits for the response with its id. A reader
hands responses to the table, a writer sends the queued lines; the end of the
link, a line that is not text or a failed write shuts the table down, which cuts
off every waiting call and refuses every later one.

A call, the reader and the writer each go one small step at a time, in any
order. A step that is not possible where it is asked for changes nothing.
-/

set_option autoImplicit false

namespace GameRelay.Outbound

open GameRelay.Frame GameRelay.Json GameRelay.Text

abbrev Outcome := Except RelayError Value

inductive Mailbox where
  | empty
  | answered (response : Response)
  | cut

inductive Stage where
  /-- It has its id and its line. -/
  | numbered
  /-- It is in the table; its line is not queued. -/
  | registered
  | waiting
  /-- Over, but its entry is still to be removed from the table; no outcome
  means that the caller gave it up. -/
  | leaving (outcome : Option Outcome)
  | ended (outcome : Option Outcome)

structure Call where
  id : UInt64
  method : String
  argument : Argument
  want : Want
  line : String
  stage : Stage
  mailbox : Mailbox := .empty
  /-- How much the table had heard when the call entered it. -/
  since : Option Nat := none

def Call.isOver (c : Call) : Bool :=
  match c.stage with
  | .ended _ => true
  | _ => false

/-- What reaches the table of a link: a line that is text, or that it is shut down. -/
inductive Heard where
  | line (text : String)
  | shutDown
  deriving DecidableEq, Repr

inductive LinkReport where
  | unexpectedId (id : Value)
  | unknownCall (id : UInt64)
  | notResponse (error : ParseError)
  | readFailed (error : ReadError)
  | writeFailed (error : SystemError)

def LinkReport.log (peer : String) : LinkReport → LogLine
  | .unexpectedId id => ⟨.warn, s!"Relay sent a response with unexpected id {id.print}"⟩
  | .unknownCall id => ⟨.warn, s!"Relay sent a response for unknown call {id}"⟩
  | .notResponse error =>
    ⟨.error, s!"Failed to parse response from relay {peer}: {error.message}"⟩
  | .readFailed error => ⟨.error, s!"Relay {peer} read error: {error.message}"⟩
  | .writeFailed error => ⟨.error, s!"Failed to write to relay: {error.message}"⟩

inductive Reader where
  | idle
  /-- Has taken a call out of the table and is about to hand it its response. -/
  | handing (call : Nat) (response : Response)
  | ended

inductive Writer where
  | running
  /-- A write has failed; the queue is still open. -/
  | failed
  | ended
  deriving DecidableEq, Repr

structure Link where
  nextId : UInt64 := 0
  calls : List Call := []
  /-- The calls that may be handed a response, by id. -/
  table : List (UInt64 × Nat) := []
  shutDown : Bool := false
  reader : Reader := .idle
  writer : Writer := .running
  incoming : Stream := {}
  queued : List Nat := []
  unwritten : List UInt8 := []
  written : List UInt8 := []
  heard : List Heard := []
  reports : List LinkReport := []
  /-- The connection was dropped: nobody can call on it any more. -/
  dropped : Bool := false

inductive CallStep where
  | register
  | queue
  | collect
  | abandon
  | leave
  deriving DecidableEq, Repr

inductive TransportEvent where
  | arrive (bytes : List UInt8)
  | finish (why : Ending)
  | read
  | hand
  /-- The writer sends that many bytes of the queued lines. -/
  | write (count : Nat)
  | writeFailed (error : SystemError)
  | closeQueue
  deriving DecidableEq, Repr

inductive LinkEvent where
  /-- A call starts: it takes an id, and fails if its argument has no JSON form. -/
  | start (method : String) (argument : Argument) (want : Want)
  | call (number : Nat) (step : CallStep)
  | transport (event : TransportEvent)
  /-- The connection is dropped, which none of its calls outlives: both tasks stop
  and the queue is closed. -/
  | discard

def Stage.next? : Stage → Option CallStep
  | .numbered => some .register
  | .registered => some .queue
  | .waiting => some .collect
  | .leaving _ => some .leave
  | .ended _ => none

def Mailbox.cutOff : Mailbox → Mailbox
  | .empty => .cut
  | m => m

namespace Link

def setStage (l : Link) (k : Nat) (stage : Stage) : Link :=
  { l with calls := l.calls.modify k fun c => { c with stage } }

def cut (calls : List Call) (k : Nat) : List Call :=
  calls.modify k fun c => { c with mailbox := c.mailbox.cutOff }

def hear (l : Link) (what : Heard) : Link := { l with heard := l.heard ++ [what] }

def cancel (l : Link) (id : UInt64) : Link :=
  match l.table.lookup id with
  | none => l
  | some k =>
    { l with table := l.table.filter (fun entry => entry.1 != id), calls := cut l.calls k }

/-- Puts a call into the table, in place of any other call of its id. -/
def enter (l : Link) (id : UInt64) (k : Nat) : Link :=
  let l := l.cancel id
  { l with table := (id, k) :: l.table }

def shut (l : Link) : Link :=
  { l.hear .shutDown with
    shutDown := true
    table := []
    calls := l.table.foldl (fun calls entry => cut calls entry.2) l.calls }

def report (l : Link) (r : LinkReport) : Link := { l with reports := l.reports ++ [r] }

def start (l : Link) (method : String) (argument : Argument) (want : Want) : Link :=
  let id := l.nextId
  let call : Call :=
    match argument.callLine? method id with
    | some line => { id, method, argument, want, line, stage := .numbered }
    | none =>
      { id, method, argument, want, line := "", stage := .ended (some (.error .unencodable)) }
  { l with nextId := id + 1, calls := l.calls ++ [call] }

def register (l : Link) (k : Nat) (c : Call) : Link :=
  if l.shutDown then l.setStage k (.ended (some (.error .shutdown)))
  else
    let l := l.enter c.id k
    { l with
      calls := l.calls.modify k fun c =>
        { c with stage := .registered, since := some l.heard.length } }

def queue (l : Link) (k : Nat) (c : Call) : Link :=
  match l.writer with
  | .ended => l.setStage k (.leaving (some (.error .shutdown)))
  | _ =>
    { l.setStage k .waiting with
      queued := l.queued ++ [k]
      unwritten := l.unwritten ++ encode c.line }

def collect (l : Link) (k : Nat) (c : Call) : Link :=
  match c.mailbox with
  | .empty => l
  | .answered response => l.setStage k (.leaving (some (response.outcome c.want)))
  | .cut => l.setStage k (.leaving (some (.error .disconnected)))

def complete (l : Link) (response : Response) : Link :=
  match response.callId? with
  | none => l.report (.unexpectedId response.id)
  | some id =>
    match l.table.lookup id with
    | none => l.report (.unknownCall id)
    | some k =>
      { l with
        table := l.table.filter (fun entry => entry.1 != id)
        reader := .handing k response }

def readLine (l : Link) (bytes : List UInt8) : Link :=
  match decodeLine bytes with
  | .error what => { l.shut.report (.readFailed (.malformed what)) with reader := .ended }
  | .ok text =>
    match Response.parse text with
    | .ok response => (l.hear (.line text)).complete response
    | .error error => (l.hear (.line text)).report (.notResponse error)

def read (l : Link) : Link :=
  match l.reader with
  | .idle =>
    match l.incoming.read with
    | (.nothing, _) => l
    | (.line bytes, incoming) => { l with incoming }.readLine bytes
    | (.ended .closed, _) => { l.shut with reader := .ended }
    | (.ended (.broken error), _) =>
      { l.shut.report (.readFailed (.system error)) with reader := .ended }
  | _ => l

def hand (l : Link) : Link :=
  match l.reader with
  | .handing k response =>
    { l with
      reader := .idle
      calls := l.calls.modify k fun c => { c with mailbox := .answered response } }
  | _ => l

def write (l : Link) (count : Nat) : Link :=
  match l.writer with
  | .running =>
    { l with
      written := l.written ++ l.unwritten.take count
      unwritten := l.unwritten.drop count }
  | _ => l

def failWrite (l : Link) (error : SystemError) : Link :=
  match l.writer, l.unwritten with
  | .running, _ :: _ => { l.shut.report (.writeFailed error) with writer := .failed }
  | _, _ => l

def callStep (l : Link) (k : Nat) (step : CallStep) : Link :=
  match l.calls[k]? with
  | none => l
  | some c =>
    match c.stage, step with
    | .numbered, .register => l.register k c
    | .registered, .queue => l.queue k c
    | .waiting, .collect => l.collect k c
    | .waiting, .abandon => l.setStage k (.leaving none)
    | .leaving outcome, .leave => (l.cancel c.id).setStage k (.ended outcome)
    | _, _ => l

def closeQueue (l : Link) : Link :=
  match l.writer with
  | .failed => { l with writer := .ended }
  | _ => l

def transport (l : Link) : TransportEvent → Link
  | .arrive bytes => { l with incoming := l.incoming.arrive bytes }
  | .finish why => { l with incoming := l.incoming.finish why }
  | .read => l.read
  | .hand => l.hand
  | .write count => l.write count
  | .writeFailed error => l.failWrite error
  | .closeQueue => l.closeQueue

def discard (l : Link) : Link :=
  if l.calls.all Call.isOver then { l with reader := .ended, writer := .ended, dropped := true }
  else l

def step (l : Link) : LinkEvent → Link
  | .start method argument want => if l.dropped then l else l.start method argument want
  | .call k step => l.callStep k step
  | .transport event => l.transport event
  | .discard => l.discard

def run : Link → List LinkEvent → Link
  | l, [] => l
  | l, event :: rest => run (l.step event) rest

theorem run_append (l : Link) (events more : List LinkEvent) :
    l.run (events ++ more) = (l.run events).run more := by
  induction events generalizing l with
  | nil => rfl
  | cons event rest ih => exact ih _

end Link

end GameRelay.Outbound
