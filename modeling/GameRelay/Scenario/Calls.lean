import GameRelay.Outbound.Schedule
import GameRelay.Scenario.Network

/-!
# Calls on one link, by script

The relay at the other end does what the script says and nothing else. After
each step of the script everything that can happen on our side does happen: all
queued lines are written, all lines that arrived are read, and every call goes
on as far as it can.
-/

set_option autoImplicit false

namespace GameRelay.Scenario

open GameRelay.Frame GameRelay.Outbound GameRelay.Text

/-! ## Running a link until it rests -/

def runLink : Nat → Link → Link
  | 0, l => l
  | fuel + 1, l =>
    match l.next? with
    | none => l
    | some event => runLink fuel (l.step event)

/-- Five steps per call, two per line that arrived, and the ends of both tasks. -/
def restFuel (l : Link) : Nat := 5 * l.calls.length + 2 * l.incoming.ready.length + 8

def rest (l : Link) : Link := runLink (restFuel l) l

/-! ## The script -/

inductive CallsStep where
  | call (spec : CallSpec)
  | reply (bytes : List UInt8)
  | drop (call : Nat)
  | hangup
  | abort
  /-- The relay breaks the link, and a call is queued before the reader notices. -/
  | abortCall (spec : CallSpec)
  | dropConnection
  | nothing

structure Calls where
  link : Link := {}
  /-- For each numbered call its place on the link, if it is to be reported. -/
  places : List (Option Nat) := []
  relayOpen : Bool := true
  dropped : Bool := false

structure CallsSeen where
  done : List (Nat × Outcome)
  waiting : Nat
  shutDown : Option Bool
  requests : List String
  relaySeesOpen : Bool
  log : List LogLine

namespace Calls

def outcome? (l : Link) (place : Nat) : Option Outcome :=
  match l.calls[place]?.map Call.stage with
  | some (.ended (some outcome)) => some outcome
  | _ => none

def isWaiting (l : Link) (place : Nat) : Bool :=
  match l.calls[place]?.map Call.stage with
  | some (.ended _) => false
  | _ => true

def numbered (s : Calls) : List (Nat × Nat) :=
  (s.places.zipIdx).filterMap fun (place, number) => place.map fun k => (number, k)

def begin (s : Calls) (spec : CallSpec) (reported : Bool) : Calls :=
  { s with
    link := s.link.step (.start spec.method spec.argument spec.want)
    places := s.places ++ [if reported then some s.link.calls.length else none] }

def reachesQueue (l : Link) (spec : CallSpec) : Bool :=
  !l.shutDown && (spec.argument.callLine? spec.method l.nextId).isSome

def apply (s : Calls) : CallsStep → Calls
  | .call spec =>
    if s.dropped then { s with places := s.places ++ [none] } else s.begin spec true
  | .reply bytes =>
    if s.relayOpen then { s with link := s.link.step (.transport (.arrive bytes)) } else s
  | .drop number =>
    match s.places[number]? with
    | some (some k) => { s with link := s.link.step (.call k .abandon) }
    | _ => s
  | .hangup =>
    if s.relayOpen then
      { s with link := s.link.step (.transport (.finish .closed)), relayOpen := false }
    else s
  | .abort =>
    if s.relayOpen then
      { s with
        link := s.link.step (.transport (.finish (.broken .connectionReset)))
        relayOpen := false }
    else s
  | .abortCall spec =>
    if !s.relayOpen then { s with places := s.places ++ [none] }
    else if reachesQueue s.link spec then
      let k := s.link.calls.length
      let s := s.begin spec true
      { s with
        link := s.link.run [.call k .register, .call k .queue,
          .transport (.writeFailed .connectionReset), .transport (.finish .closed)]
        relayOpen := false }
    else
      let s := s.begin spec false
      { s with
        link := s.link.step (.transport (.finish (.broken .connectionReset)))
        relayOpen := false }
  | .dropConnection =>
    let abandoned := (List.range s.link.calls.length).flatMap fun k =>
      [LinkEvent.call k .abandon, .call k .leave]
    { s with link := (s.link.run abandoned).step .discard, relayOpen := false, dropped := true }
  | .nothing => s

def received (before after : Calls) : List String :=
  if after.relayOpen then
    (lines (after.link.written.drop before.link.written.length)).map fun line =>
      String.ofList ((((decodeLine line).toOption.getD "").toList).filter (· != '\n'))
  else []

def step (n : Network) (s : Calls) (what : CallsStep) : Calls × CallsSeen :=
  let next := s.apply what
  let next := { next with link := rest next.link }
  let done := next.numbered.filterMap fun (number, k) =>
    if (outcome? s.link k).isSome then none else (outcome? next.link k).map fun o => (number, o)
  (next, {
    done
    waiting := (next.numbered.filter fun (_, k) => isWaiting next.link k).length
    shutDown := if next.dropped then none else some next.link.shutDown
    requests := received s next
    relaySeesOpen := next.relayOpen
    log := (next.link.reports.drop s.link.reports.length).map (LinkReport.log n.address) })

def steps (n : Network) : Calls → List CallsStep → List CallsSeen
  | _, [] => []
  | s, what :: rest =>
    let (next, seen) := s.step n what
    seen :: steps n next rest

def run (n : Network) (station : Station) (timeout : Duration) (script : List CallsStep) :
    Except RelayError (List CallsSeen) :=
  (n.dial station timeout).map fun () => steps n {} script

end Calls

end GameRelay.Scenario
