import GameRelay.Proofs.Inbound.Answer
import GameRelay.Proofs.Text.Stream

/-!
# One connection from its first byte to its end

Everything that happens to a connection is an event of its own, with whatever its
handlers come to. At any moment every request that was taken has been answered,
except for the last one while its handler or its reply is due.
-/

set_option autoImplicit false

namespace GameRelay.Inbound

open GameRelay.Frame GameRelay.Json GameRelay.Text

inductive ServingEvent where
  | arrive (bytes : List UInt8)
  | finish (why : Ending)
  | read
  | handled (reaction : Reaction)
  | write
  | writeFailed (error : SystemError)

namespace ServingEvent

def breaks : ServingEvent → Bool
  | .finish (.broken _) => true
  | .writeFailed _ => true
  | _ => false

def received : List ServingEvent → List UInt8
  | [] => []
  | .arrive bytes :: rest => bytes ++ received rest
  | .finish _ :: _ => []
  | _ :: rest => received rest

end ServingEvent

namespace Serving

def step (s : Serving) : ServingEvent → Serving
  | .arrive bytes => s.arrive bytes
  | .finish why => s.finish why
  | .read => s.read.1
  | .handled reaction => (s.settle reaction).1
  | .write => s.write
  | .writeFailed error => (s.failWrite error).1

def run : Serving → List ServingEvent → Serving
  | s, [] => s
  | s, event :: rest => run (s.step event) rest

def callback? (s : Serving) : ServingEvent → Option (Notice × Reaction)
  | .handled reaction => s.waiting?.map fun notice => (notice, reaction)
  | _ => none

def callbacks : Serving → List ServingEvent → List (Notice × Reaction)
  | _, [] => []
  | s, event :: rest => (s.callback? event).toList ++ callbacks (s.step event) rest

inductive Course : List Request → List (Notice × Reaction) → Phase → List Response → Prop where
  | reading (past : List Exchange) : (∀ e ∈ past, e.Sound) →
      Course (past.map Exchange.request) (past.filterMap Exchange.callback) .reading
        (past.map Exchange.response)
  | calling (past : List Exchange) (r : Request) (call : Call) : (∀ e ∈ past, e.Sound) →
      Call.ofRequest r = .ok call →
      Course (past.map Exchange.request ++ [r]) (past.filterMap Exchange.callback)
        (.calling r call) (past.map Exchange.response)
  | replying (past : List Exchange) (last : Exchange) : (∀ e ∈ past, e.Sound) → last.Sound →
      Course (past.map Exchange.request ++ [last.request])
        (past.filterMap Exchange.callback ++ last.callback.toList) (.replying last.response)
        (past.map Exchange.response)
  | ended (past : List Exchange) : (∀ e ∈ past, e.Sound) →
      Course (past.map Exchange.request) (past.filterMap Exchange.callback) .ended
        (past.map Exchange.response)

section
variable {requests : List Request} {ran : List (Notice × Reaction)} {written : List Response}
  {r : Request} {call : Call}

theorem Course.taken (h : Course requests ran .reading written) (hr : Call.ofRequest r = .ok call) :
    Course (requests ++ [r]) ran (.calling r call) written := by
  cases h with
  | reading past hsound => exact .calling past r call hsound hr

theorem Course.refused {why : Rejection} (h : Course requests ran .reading written)
    (hr : Call.ofRequest r = .error why) :
    Course (requests ++ [r]) ran (.replying (.failed r.id why.message)) written := by
  cases h with
  | reading past hsound =>
    have hlast := Exchange.sound_of_error hr
    simpa using Course.replying past ⟨r, none, .failed r.id why.message⟩ hsound hlast

theorem Course.handled (h : Course requests ran (.calling r call) written) (reaction : Reaction) :
    Course requests (ran ++ [(call.notice, reaction)]) (.replying (call.respond r reaction))
      written := by
  cases h with
  | calling past r call hsound hr =>
    exact .replying past ⟨r, some (call.notice, reaction), call.respond r reaction⟩ hsound
      (Exchange.sound_of_call hr reaction)

theorem Course.replied {response : Response}
    (h : Course requests ran (.replying response) written) :
    Course requests ran .reading (written ++ [response]) := by
  cases h with
  | replying past last hsound hlast =>
    have hall : ∀ e ∈ past ++ [last], e.Sound := by
      intro e he
      rcases List.mem_append.mp he with he | he
      · exact hsound e he
      · exact List.mem_singleton.mp he ▸ hlast
    have hcallback : [last].filterMap Exchange.callback = last.callback.toList := by
      cases h : last.callback <;> simp [h]
    simpa [List.filterMap_append, hcallback] using Course.reading (past ++ [last]) hall

theorem Course.closed (h : Course requests ran .reading written) :
    Course requests ran .ended written := by
  cases h with
  | reading past hsound => exact .ended past hsound

end

structure Stands (whole future : List UInt8) (taken : List (List UInt8))
    (ran : List (Notice × Reaction)) (s : Serving) : Prop where
  stream : Stream.Holds whole future taken s.stream
  course : Course (taken.filterMap requestOf?) ran s.phase s.written
  complete : s.phase = .ended → taken = lines whole

section
variable {whole future after : List UInt8} {taken : List (List UInt8)}
  {ran : List (Notice × Reaction)} {s : Serving}

theorem stands_fresh (whole : List UInt8) : Stands whole whole [] [] {} where
  stream := Stream.holds_fresh whole
  course := .reading [] (by simp)
  complete := nofun

theorem Stands.of_ended {why : Ending} (h : Stands whole future taken ran s)
    (hended : s.stream.ending = some why) : Stands whole after taken ran s :=
  ⟨h.stream.of_ended hended, h.course, h.complete⟩

theorem Stands.read (htext : ∀ line ∈ lines whole, ∃ text, decodeLine line = .ok text)
    (h : Stands whole future taken ran s) :
    ∃ more, Stands whole future (taken ++ more) ran s.read.1 := by
  have hcourse := h.course
  obtain ⟨stream, phase, written⟩ := s
  cases phase with
  | calling | replying | ended => exact ⟨[], by simpa [Serving.read] using h⟩
  | reading =>
    rcases hread : stream.read with ⟨reading, stream'⟩
    cases reading with
    | nothing => exact ⟨[], by simpa [Serving.read, hread] using h⟩
    | ended why =>
      obtain ⟨hstream, rfl, hall⟩ := h.stream.ended hread
      exact ⟨[], by simpa [Serving.read, hread] using ⟨hstream, hcourse.closed, fun _ => hall⟩⟩
    | line bytes =>
      obtain ⟨hstream, hmem⟩ := h.stream.line hread
      obtain ⟨text, hline⟩ := htext bytes hmem
      -- A blank line and a line that is no request leave no trace.
      have hpassed : requestOf? bytes = none → (taken ++ [bytes]).filterMap requestOf? =
          taken.filterMap requestOf? := by
        intro hnone
        simp [hnone]
      simp only [Serving.read, hread]
      rcases incoming_cases hline with ⟨hblank, hnone⟩ | ⟨e, he, hnone⟩ | ⟨r, hr, hsome⟩
      · rw [hblank]
        exact ⟨[bytes], hstream, by rwa [hpassed hnone], nofun⟩
      · rw [he]
        exact ⟨[bytes], hstream, by rwa [hpassed hnone], nofun⟩
      · have htaken : (taken ++ [bytes]).filterMap requestOf? =
            taken.filterMap requestOf? ++ [r] := by simp [hsome]
        rw [hr]
        cases hcall : Call.ofRequest r with
        | ok call =>
          simp only [hcall]
          exact ⟨[bytes], hstream, htaken ▸ hcourse.taken hcall, nofun⟩
        | error why =>
          simp only [hcall]
          exact ⟨[bytes], hstream, htaken ▸ hcourse.refused hcall, nofun⟩

/-- One event of a connection that neither breaks nor fails to write. -/
theorem Stands.step (htext : ∀ line ∈ lines whole, ∃ text, decodeLine line = .ok text)
    {event : ServingEvent} (hcalm : event.breaks = false) {rest : List ServingEvent}
    (h : Stands whole (ServingEvent.received (event :: rest)) taken ran s) :
    ∃ more, Stands whole (ServingEvent.received rest) (taken ++ more)
      (ran ++ (s.callback? event).toList) (s.step event) := by
  have hcourse := h.course
  cases event with
  | arrive bytes =>
    refine ⟨[], ?_⟩
    simp only [callback?, Option.toList_none, List.append_nil]
    exact ⟨h.stream.arrive rfl, hcourse, h.complete⟩
  | finish why =>
    cases why with
    | closed =>
      refine ⟨[], ?_⟩
      simp only [callback?, Option.toList_none, List.append_nil]
      exact ⟨h.stream.finish rfl, hcourse, h.complete⟩
    | broken error => simp [ServingEvent.breaks] at hcalm
  | read =>
    obtain ⟨more, hread⟩ := h.read htext
    refine ⟨more, ?_⟩
    simp only [callback?, Option.toList_none, List.append_nil]
    exact hread
  | handled reaction =>
    obtain ⟨stream, phase, written⟩ := s
    refine ⟨[], ?_⟩
    cases phase with
    | calling r call =>
      rw [List.append_nil]
      exact ⟨h.stream, hcourse.handled reaction, nofun⟩
    | reading | replying | ended =>
      simp only [callback?, waiting?, Option.map_none, Option.toList_none, List.append_nil]
      exact h
  | write =>
    obtain ⟨stream, phase, written⟩ := s
    refine ⟨[], ?_⟩
    simp only [callback?, Option.toList_none, List.append_nil]
    cases phase with
    | replying response => exact ⟨h.stream, hcourse.replied, nofun⟩
    | reading | calling | ended => exact h
  | writeFailed error => simp [ServingEvent.breaks] at hcalm

/-- Every moment of a connection. -/
theorem Stands.run (htext : ∀ line ∈ lines whole, ∃ text, decodeLine line = .ok text)
    (events rest : List ServingEvent) (hcalm : ∀ event ∈ events, event.breaks = false)
    (h : Stands whole (ServingEvent.received (events ++ rest)) taken ran s) :
    ∃ more, Stands whole (ServingEvent.received rest) (taken ++ more)
      (ran ++ s.callbacks events) (s.run events) := by
  induction events generalizing s taken ran with
  | nil => exact ⟨[], by simpa [callbacks, Serving.run] using h⟩
  | cons event events ih =>
    obtain ⟨first, hfirst⟩ := h.step htext (hcalm event List.mem_cons_self)
    obtain ⟨more, hmore⟩ := ih (fun e he => hcalm e (List.mem_cons_of_mem _ he)) hfirst
    exact ⟨first ++ more, by simpa [callbacks, Serving.run] using hmore⟩

end

end Serving

end GameRelay.Inbound
