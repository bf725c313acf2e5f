import GameRelay.Proofs.Inbound.Independence

/-!
# How a connection takes its requests

Of all steps of a listener only a read takes a request, only the end of a handler is
heard by the consumer, and only a write shows a reply.
-/

set_option autoImplicit false

namespace GameRelay.Inbound

open GameRelay.Frame GameRelay.Text

def noticeOf? (r : Request) : Option Notice := (Call.ofRequest r).toOption.map Call.notice

namespace Serving

def request? (s : Serving) : Option Request :=
  match s.phase, s.stream.read.1 with
  | .reading, .line bytes => requestOf? bytes
  | _, _ => none

end Serving

def Phase.reply? : Phase → Option Response
  | .replying response => some response
  | .reading | .calling .. | .ended => none

namespace Listener

variable {σ : Type}

def requestOn? (l : Listener σ) (c : Nat) (event : ListenerEvent) : Option Request :=
  if event = .read c then l.connections[c]?.bind Serving.request? else none

def requestsOn (consumer : Consumer σ) (c : Nat) :
    Listener σ → List ListenerEvent → List Request
  | _, [] => []
  | l, event :: rest =>
    (l.requestOn? c event).toList ++ requestsOn consumer c (l.step consumer event) rest

/-! ## One step of a connection -/

inductive Turn (consumer : Consumer σ) (l : Listener σ) (c : Nat) (s : Serving) :
    ListenerEvent → List Request → List Notice → Phase → List Response → Prop where
  | still (event : ListenerEvent) : Turn consumer l c s event [] [] s.phase s.written
  | took (r : Request) (call : Call) : s.phase = .reading → s.request? = some r →
      Call.ofRequest r = .ok call →
      Turn consumer l c s (.read c) [r] [] (.calling r call) s.written
  | refused (r : Request) (why : Rejection) : s.phase = .reading → s.request? = some r →
      Call.ofRequest r = .error why →
      Turn consumer l c s (.read c) [r] [] (.replying (.failed r.id why.message)) s.written
  | handled (r : Request) (call : Call) : s.phase = .calling r call →
      Turn consumer l c s (.handle c) [] [call.notice]
        (.replying (call.respond r (consumer.handle l.state call.notice).2)) s.written
  | wrote (response : Response) : s.phase = .replying response →
      Turn consumer l c s (.write c) [] [] .reading (s.written ++ [response])
  | closed : s.phase = .reading → Turn consumer l c s (.read c) [] [] .ended s.written
  | lost (response : Response) (error : SystemError) : s.phase = .replying response →
      Turn consumer l c s (.writeFailed c error) [] [] .ended s.written

section
variable {consumer : Consumer σ} {l : Listener σ} {c : Nat} {s : Serving}

theorem read_turn (consumer : Consumer σ) (l : Listener σ) (c : Nat) (s : Serving) :
    Turn consumer l c s (.read c) s.request?.toList [] s.read.1.phase s.read.1.written := by
  obtain ⟨stream, phase, written⟩ := s
  cases phase with
  | calling | replying | ended => exact .still _
  | reading =>
    rcases hread : stream.read with ⟨reading, rest⟩
    cases reading with
    | nothing => simpa [Serving.request?, Serving.read, hread] using Turn.still _
    | ended why =>
      cases why <;> simpa [Serving.request?, Serving.read, hread] using Turn.closed rfl
    | line bytes =>
      have hrequest : Serving.request? ⟨stream, .reading, written⟩ = requestOf? bytes := by
        simp [Serving.request?, hread]
      rw [hrequest]
      simp only [Serving.read, hread]
      cases hline : decodeLine bytes with
      | error what =>
        simpa [Incoming.ofLine, requestOf?, hline] using Turn.closed rfl
      | ok text =>
        rcases incoming_cases hline with ⟨hblank, hnone⟩ | ⟨e, he, hnone⟩ | ⟨r, hr, hsome⟩
        · simpa [hblank, hnone] using Turn.still _
        · simpa [he, hnone] using Turn.still _
        · rw [hr, hsome]
          cases hcall : Call.ofRequest r with
          | ok call =>
            simp only [hcall]
            exact .took r call rfl (hrequest.trans hsome) hcall
          | error why =>
            simp only [hcall]
            exact .refused r why rfl (hrequest.trans hsome) hcall

theorem turn_of_eventOn (hs : l.connections[c]? = some s) {event : ListenerEvent} {e : ServingEvent}
    (he : l.eventOn? consumer c event = some e) :
    Turn consumer l c s event (l.requestOn? c event).toList
      ((s.callback? e).toList.map Prod.fst) (s.step e).phase (s.step e).written := by
  obtain ⟨stream, phase, written⟩ := s
  cases event with
  | accept | acceptFailed | door => simp [eventOn?] at he
  | arrive d bytes =>
    obtain ⟨rfl, rfl⟩ : d = c ∧ ServingEvent.arrive bytes = e := by simpa [eventOn?] using he
    exact .still _
  | finish d why =>
    obtain ⟨rfl, rfl⟩ : d = c ∧ ServingEvent.finish why = e := by simpa [eventOn?] using he
    exact .still _
  | read d =>
    obtain ⟨rfl, rfl⟩ : d = c ∧ ServingEvent.read = e := by simpa [eventOn?] using he
    have hrequest : l.requestOn? d (.read d) = Serving.request? ⟨stream, phase, written⟩ := by
      simp [requestOn?, hs]
    rw [hrequest]
    exact read_turn consumer l d _
  | handle d =>
    simp only [eventOn?, hs, Option.bind_some] at he
    split at he
    · rename_i hd
      subst hd
      obtain ⟨notice, hwaiting, rfl⟩ := Option.map_eq_some_iff.mp he
      cases phase with
      | calling r call =>
        obtain rfl : call.notice = notice := by simpa [Serving.waiting?] using hwaiting
        exact .handled r call rfl
      | reading | replying | ended => simp [Serving.waiting?] at hwaiting
    · simp at he
  | write d =>
    obtain ⟨rfl, rfl⟩ : d = c ∧ ServingEvent.write = e := by simpa [eventOn?] using he
    cases phase with
    | replying response => exact .wrote response rfl
    | reading | calling | ended => exact .still _
  | writeFailed d error =>
    obtain ⟨rfl, rfl⟩ : d = c ∧ ServingEvent.writeFailed error = e := by
      simpa [eventOn?] using he
    cases phase with
    | replying response => exact .lost response error rfl
    | reading | calling | ended => exact .still _

theorem step_turn (consumer : Consumer σ) (hs : l.connections[c]? = some s)
    (event : ListenerEvent) :
    ∃ s' heard, (l.step consumer event).connections[c]? = some s' ∧
      (l.step consumer event).heardOn c = l.heardOn c ++ heard ∧
      Turn consumer l c s event (l.requestOn? c event).toList heard s'.phase s'.written := by
  refine ⟨_, _, step_connection hs event, step_heardOn hs event, ?_⟩
  cases he : l.eventOn? consumer c event with
  | some e =>
    have hcallbacks : s.callbacks [e] = (s.callback? e).toList := by
      simp [Serving.callbacks]
    rw [Option.toList_some, hcallbacks]
    exact turn_of_eventOn hs he
  | none =>
    have hread : event ≠ .read c := by
      rintro rfl
      simp [eventOn?] at he
    have hnone : l.requestOn? c event = none := by simp [requestOn?, hread]
    rw [hnone]
    exact .still _

end

end Listener

end GameRelay.Inbound
