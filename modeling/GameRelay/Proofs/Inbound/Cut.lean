import GameRelay.Proofs.Inbound.Alone
import GameRelay.Proofs.Frame.Request
import GameRelay.Proofs.Text.Cut

/-!
# A connection that is cut

A stream of requests is cut at some byte. Whatever the last piece is taken for, the
callbacks that run and the replies that are written are the first ones of the whole
stream: a beginning of a request is no other request.
-/

set_option autoImplicit false

namespace GameRelay.Inbound

open GameRelay.Frame GameRelay.Json GameRelay.Text

variable {σ : Type}

/-! ## The lines of a cut stream -/

theorem requestOf?_of_isPrefix {piece line : List UInt8} {r r' : Request} (h : piece <+: line)
    (hpiece : requestOf? piece = some r) (hline : requestOf? line = some r') : r = r' := by
  obtain ⟨first, hfirst, hr⟩ := parse_of_requestOf? hpiece
  obtain ⟨whole, hwhole, hr'⟩ := parse_of_requestOf? hline
  exact Request.parse_of_isPrefix (isPrefix_of_decodeLine hfirst hwhole h) hr hr'

theorem incoming_of_requestOf? {line : List UInt8} {r : Request} (h : requestOf? line = some r) :
    Incoming.ofLine line = .request r := by
  obtain ⟨text, htext, -⟩ := parse_of_requestOf? h
  rcases incoming_cases htext with ⟨-, hnone⟩ | ⟨-, -, hnone⟩ | ⟨r', hline, hr'⟩
  · simp [hnone] at h
  · simp [hnone] at h
  · obtain rfl := Option.some.inj (hr'.symm.trans h)
    exact hline

section
variable (consumer : Consumer σ)

/-- A piece of a request is that request, or it has no effect. -/
theorem serveLines_piece (state : σ) {piece line : List UInt8} {r : Request}
    (more : List (List UInt8)) (h : piece <+: line) (hline : requestOf? line = some r) :
    (serveLines consumer state [piece]).responses <+:
        (serveLines consumer state (line :: more)).responses ∧
      (serveLines consumer state [piece]).notices <+:
        (serveLines consumer state (line :: more)).notices := by
  cases hpiece : Incoming.ofLine piece with
  | blank | notRequest | malformed =>
    simp only [serveLines, hpiece, ServedStream.reporting]
    exact ⟨List.nil_prefix, List.nil_prefix⟩
  | request r' =>
    have hsame : r' = r := by
      obtain ⟨text, htext⟩ : ∃ text, decodeLine piece = .ok text :=
        text_of_incoming (by simp [hpiece])
      rcases incoming_cases htext with ⟨hno, -⟩ | ⟨e, hno, -⟩ | ⟨r'', hr'', hsome⟩
      · simp [hno] at hpiece
      · simp [hno] at hpiece
      · obtain rfl := Incoming.request.inj (hr''.symm.trans hpiece)
        exact requestOf?_of_isPrefix h hsome hline
    have hpieceLine : serveLines consumer state [piece] =
        serveLines consumer state [line] := by
      simp only [serveLines, hpiece, incoming_of_requestOf? hline, hsame]
    rw [hpieceLine]
    exact serveLines_isPrefix consumer state [line] more

theorem serve_isPrefix (state : σ) {cut whole : List UInt8} (h : cut <+: whole)
    (haccepted : ∀ line ∈ lines whole, ∃ r, requestOf? line = some r) :
    (serve consumer state cut).responses <+:
        (serve consumer state whole).responses ∧
      (serve consumer state cut).notices <+: (serve consumer state whole).notices := by
  have hlines := cutLines_of_isPrefix h
  unfold serve
  generalize lines cut = first, lines whole = all at hlines haccepted
  cases hlines with
  | between _ more => exact serveLines_isPrefix consumer state first more
  | inside full more piece line hpiece =>
    have htext : ∀ line ∈ full, ∃ text, decodeLine line = .ok text := by
      intro line hline
      obtain ⟨r, hr⟩ := haccepted line (List.mem_append_left _ hline)
      obtain ⟨text, htext, -⟩ := parse_of_requestOf? hr
      exact ⟨text, htext⟩
    obtain ⟨r, hr⟩ := haccepted line (List.mem_append_right _ List.mem_cons_self)
    obtain ⟨hresponses, hnotices⟩ := serveLines_piece consumer
      (serveLines consumer state full).state more hpiece hr
    rw [serveLines_append consumer state full _ htext,
      serveLines_append consumer state full _ htext]
    exact ⟨(List.prefix_append_right_inj _).mpr hresponses,
      (List.prefix_append_right_inj _).mpr hnotices⟩

end

/-! ## A consumer that one connection has for itself -/

namespace Listener

variable {consumer : Consumer σ} {l : Listener σ} {c : Nat} {s : Serving}

def HandlesOnly (c : Nat) (events : List ListenerEvent) : Prop := ∀ d, .handle d ∈ events → d = c

theorem onConnection_state (l : Listener σ) (c : Nat) (f : Serving → Serving × List Report) :
    (l.onConnection c f).state = l.state := by
  unfold onConnection
  split <;> rfl

/-- The callbacks of a step leave the consumer as the step does. -/
theorem step_ran (hs : l.connections[c]? = some s) {event : ListenerEvent}
    (honly : ∀ d, event = .handle d → d = c) :
    Ran consumer l.state (s.callbacks (l.eventOn? consumer c event).toList)
      (l.step consumer event).state := by
  -- Nothing but a handler runs a callback.
  have hquiet : ∀ (d : Nat) (e : ServingEvent), s.callback? e = none →
      s.callbacks (if d = c then some e else none).toList = [] := by
    intro d e he
    split <;> simp [Serving.callbacks, he]
  cases event with
  | accept | acceptFailed =>
    simp only [step, eventOn?, Option.toList_none, Serving.callbacks]
    split <;> rfl
  | door => rfl
  | arrive d bytes =>
    rw [eventOn?, hquiet d (.arrive bytes) rfl]
    exact (onConnection_state l d _).symm
  | finish d why =>
    rw [eventOn?, hquiet d (.finish why) rfl]
    exact (onConnection_state l d _).symm
  | read d =>
    rw [eventOn?, hquiet d .read rfl]
    exact (onConnection_state l d _).symm
  | write d =>
    rw [eventOn?, hquiet d .write rfl]
    exact (onConnection_state l d _).symm
  | writeFailed d error =>
    rw [eventOn?, hquiet d (.writeFailed error) rfl]
    exact (onConnection_state l d _).symm
  | handle d =>
    obtain rfl := honly d rfl
    cases hwaiting : s.waiting? with
    | none => simp [step, handle, hs, hwaiting, eventOn?, Serving.callbacks, Ran]
    | some notice =>
      simp [step, handle, hs, hwaiting, eventOn?, Serving.callbacks, Serving.callback?, Ran,
        onConnection_state]

theorem run_ran (hs : l.connections[c]? = some s) {events : List ListenerEvent}
    (honly : HandlesOnly c events) :
    Ran consumer l.state (s.callbacks (l.eventsOn consumer c events))
      (l.run consumer events).state := by
  induction events generalizing l s with
  | nil => rfl
  | cons event rest ih =>
    rw [run, eventsOn, Serving.callbacks_append]
    refine ran_append.mpr ⟨_, step_ran hs fun d hd => honly d (hd ▸ List.mem_cons_self), ?_⟩
    exact ih (step_connection hs event) fun d hd => honly d (List.mem_cons_of_mem _ hd)

/-- A connection that has the consumer for itself, after these events. -/
theorem follows_of_handlesOnly (consumer : Consumer σ) (hfresh : l.connections[c]? = some {})
    {events : List ListenerEvent} (honly : HandlesOnly c events) (calm : Prop)
    (hcalm : calm → ∀ e ∈ l.eventsOn consumer c events, e.breaks = false) :
    ∃ taken, Serving.Follows consumer l.state calm
      (ServingEvent.received (l.eventsOn consumer c events)) [] taken
      (l.callbacksOn consumer c events) (l.run consumer events).state
      (({} : Serving).run (l.eventsOn consumer c events)) := by
  have hrun := Serving.Follows.run (l.eventsOn consumer c events) [] hcalm
    (by simpa using run_ran hfresh honly)
    (Serving.follows_fresh consumer l.state calm
      (ServingEvent.received (l.eventsOn consumer c events ++ [])))
  simpa [ServingEvent.received, callbacksOn] using hrun

/-! ## Two runs -/

structure CutShort (consumer : Consumer σ) (l : Listener σ) (c : Nat)
    (events cutEvents : List ListenerEvent) : Prop where
  fresh : l.connections[c]? = some {}
  alone : HandlesOnly c events
  cutAlone : HandlesOnly c cutEvents
  calm : ∀ e ∈ l.eventsOn consumer c events, e.breaks = false
  accepted : ∀ line ∈ lines (ServingEvent.received (l.eventsOn consumer c events)),
    ∃ r, requestOf? line = some r
  cut : ServingEvent.received (l.eventsOn consumer c cutEvents) <+:
    ServingEvent.received (l.eventsOn consumer c events)

/-- The callbacks of a connection that was cut, and its replies, are the first ones of the whole
stream, once that has been served. -/
theorem CutShort.isPrefix {events cutEvents : List ListenerEvent}
    (h : l.CutShort consumer c events cutEvents) {served s : Serving}
    (hserved : (l.run consumer events).connections[c]? = some served)
    (hended : served.phase = .ended) (hs : (l.run consumer cutEvents).connections[c]? = some s) :
    (l.run consumer cutEvents).heardOn c <+: (l.run consumer events).heardOn c ∧
      s.written <+: served.written := by
  have hfresh := h.fresh
  obtain rfl := Option.some.inj ((run_connection hfresh events).symm.trans hserved)
  obtain rfl := Option.some.inj ((run_connection hfresh cutEvents).symm.trans hs)
  obtain ⟨_, hwhole⟩ := follows_of_handlesOnly consumer hfresh h.alone True fun _ => h.calm
  obtain ⟨taken, hpiece⟩ := follows_of_handlesOnly consumer hfresh h.cutAlone False
    False.elim
  have hyields := hwhole.complete trivial hended
  have htaken := (List.prefix_append taken _).trans hpiece.stream.isPrefix
  obtain ⟨hwritten, hnotices⟩ := hpiece.alone.isPrefix htaken
  obtain ⟨hresponses, hcallbacks⟩ := serve_isPrefix consumer l.state h.cut h.accepted
  constructor
  · rw [run_heardOn hfresh, run_heardOn hfresh]
    apply (List.prefix_append_right_inj _).mpr
    exact ((List.prefix_append _ _).trans hnotices).trans
      (hcallbacks.trans (hyields.notices ▸ List.prefix_rfl))
  · exact hwritten.trans (hresponses.trans (hyields.responses ▸ List.prefix_rfl))

end Listener

end GameRelay.Inbound
