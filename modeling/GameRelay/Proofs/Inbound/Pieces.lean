import GameRelay.Proofs.Inbound.Coming

/-!
# Bytes that arrive in pieces

Neither the pieces in which the bytes of a connection arrive nor the moments at which
they are read show in the replies, in the callbacks or in what is reported: together
with what is still to come they stay what serving the bytes in one go gives.
-/

set_option autoImplicit false

namespace GameRelay.Inbound

open GameRelay.Frame

variable {σ : Type}

namespace Listener

/-! ## What a listener reports of a connection -/

def reportsOn (l : Listener σ) (c : Nat) : List Report :=
  (l.reports.filter fun entry => entry.1 == some c).map Prod.snd

section
variable {consumer : Consumer σ} {l : Listener σ} {c : Nat} {s : Serving}

theorem onConnection_reportsOn (hs : l.connections[c]? = some s) (d : Nat)
    (f : Serving → Serving × List Report) (event : ServingEvent) (hf : (f s).2 = s.said event) :
    (l.onConnection d f).reportsOn c = l.reportsOn c ++
      s.reports (if d = c then some event else none).toList := by
  by_cases hd : d = c
  · subst hd
    simp [onConnection, hs, reportsOn, Serving.reports, hf, List.filter_map, Function.comp_def]
  · simp only [onConnection, if_neg hd, Option.toList_none, Serving.reports, List.append_nil]
    split
    · rfl
    · simp [reportsOn, List.filter_map, Function.comp_def, hd]

theorem handle_reportsOn (hs : l.connections[c]? = some s) (d : Nat) :
    (l.handle consumer d).reportsOn c = l.reportsOn c ++
      s.reports (l.eventOn? consumer c (.handle d)).toList := by
  unfold handle
  cases hwaiting : l.connections[d]?.bind Serving.waiting? with
  | none =>
    by_cases hd : d = c
    · subst hd
      simp [eventOn?, hwaiting, Serving.reports]
    · simp [eventOn?, hd, Serving.reports]
  | some notice =>
    have hsame : eventOn? consumer c l (.handle d) =
        if d = c then some (.handled (consumer.handle l.state notice).2) else none := by
      by_cases hd : d = c
      · subst hd
        simp [eventOn?, hwaiting]
      · simp [eventOn?, hd]
    rw [hsame]
    exact onConnection_reportsOn (l := { l with
      state := (consumer.handle l.state notice).1, heard := l.heard ++ [(d, notice)] })
      hs d _ (.handled (consumer.handle l.state notice).2) rfl

theorem step_reportsOn (hs : l.connections[c]? = some s) (event : ListenerEvent) :
    (l.step consumer event).reportsOn c = l.reportsOn c ++
      s.reports (l.eventOn? consumer c event).toList := by
  cases event with
  | accept =>
    simp only [step, eventOn?]
    split <;> simp [Serving.reports, reportsOn]
  | acceptFailed error =>
    simp only [step, eventOn?]
    split <;> simp [Serving.reports, reportsOn]
  | arrive d bytes => exact onConnection_reportsOn hs d _ (.arrive bytes) rfl
  | finish d why => exact onConnection_reportsOn hs d _ (.finish why) rfl
  | read d => exact onConnection_reportsOn hs d _ .read rfl
  | handle d => exact handle_reportsOn hs d
  | write d => exact onConnection_reportsOn hs d _ .write rfl
  | writeFailed d error => exact onConnection_reportsOn hs d _ (.writeFailed error) rfl
  | door event => simp [step, eventOn?, Serving.reports, reportsOn]

/-- What is reported of a connection is what it reports. -/
theorem run_reportsOn (hs : l.connections[c]? = some s) (events : List ListenerEvent) :
    (l.run consumer events).reportsOn c = l.reportsOn c ++
      s.reports (l.eventsOn consumer c events) := by
  induction events generalizing l s with
  | nil => simp [run, eventsOn, Serving.reports]
  | cons event rest ih =>
    rw [run, eventsOn, Serving.reports_append, ih (step_connection hs event),
      step_reportsOn hs event, List.append_assoc]

end

/-! ## A connection that bytes arrive on -/

/-- These bytes arrive on a connection that was just accepted, in whatever pieces; nothing breaks,
and every reply is written. -/
structure Brings (l : Listener σ) (consumer : Consumer σ) (c : Nat) (bytes : List UInt8)
    (events : List ListenerEvent) : Prop where
  fresh : l.connections[c]? = some {}
  calm : ∀ e ∈ l.eventsOn consumer c events, e.breaks = false
  received : ServingEvent.received (l.eventsOn consumer c events) = bytes

structure Arrives (l : Listener σ) (consumer : Consumer σ) (c : Nat) (bytes : List UInt8)
    (events : List ListenerEvent) : Prop
    extends l.Brings consumer c bytes events where
  alone : HandlesOnly c events

def EndedOn (l : Listener σ) (c : Nat) : Prop := (l.connections[c]?).map Serving.phase = some .ended

def servedOn (l : Listener σ) (c : Nat) : Option (ServedStream σ) :=
  (l.connections[c]?).map fun s => ⟨l.state, s.written, l.heardOn c, l.reportsOn c⟩

def repliedOn (l : Listener σ) (c : Nat) : Option (List Response × List Notice × List Report) :=
  (l.servedOn c).map fun served => (served.responses, served.notices, served.reports)

section
variable {consumer : Consumer σ} {l : Listener σ} {c : Nat} {bytes : List UInt8}
  {events other : List ListenerEvent}

/-- A run that has served the connection to its end, with a consumer that makes of its callbacks
what became of them. -/
theorem Brings.served {τ : Type} (h : l.Brings consumer c bytes events)
    (hended : (l.run consumer events).EndedOn c) (like : Consumer τ) {start last : τ}
    (hran : Ran like start (l.callbacksOn consumer c events) last) :
    (l.run consumer events).servedOn c =
      some ⟨(l.run consumer events).state, (serve like start bytes).responses,
        l.heardOn c ++ (serve like start bytes).notices,
        l.reportsOn c ++ (serve like start bytes).reports⟩ ∧
      (serve like start bytes).state = last := by
  obtain ⟨hfresh, hcalm, rfl⟩ := h
  have hs : (l.run consumer events).connections[c]? = _ := run_connection hfresh events
  rw [EndedOn, hs, Option.map_some, Option.some.injEq] at hended
  rw [Serving.served_of_run like start last _ hcalm hran hended, servedOn, hs,
    run_heardOn hfresh, run_reportsOn hfresh]
  exact ⟨rfl, rfl⟩

/-- Two ways in which the same bytes arrive give the same as long as handlers come to the same. -/
theorem Brings.same (h : l.Brings consumer c bytes events) (h' : l.Brings consumer c bytes other)
    (hended : (l.run consumer events).EndedOn c) (hended' : (l.run consumer other).EndedOn c)
    (hreactions : (l.callbacksOn consumer c other).map Prod.snd =
      (l.callbacksOn consumer c events).map Prod.snd) :
    (l.run consumer other).repliedOn c = (l.run consumer events).repliedOn c := by
  have hran := ran_scripted (l.callbacksOn consumer c events) []
  have hran' := ran_scripted (l.callbacksOn consumer c other) []
  rw [List.append_nil] at hran hran'
  rw [hreactions] at hran'
  rw [repliedOn, repliedOn, (h.served hended scripted hran).1, (h'.served hended' scripted hran').1]
  rfl

/-- Once the connection was served to its end, this is what serving its bytes in one go comes to. -/
theorem Arrives.served (h : l.Arrives consumer c bytes events)
    (hended : (l.run consumer events).EndedOn c) :
    (l.run consumer events).servedOn c =
      some ((serve consumer l.state bytes).behind [] (l.heardOn c) (l.reportsOn c)) := by
  obtain ⟨hserved, hstate⟩ :=
    h.toBrings.served hended consumer (run_ran h.fresh h.alone)
  rw [hserved, ← hstate]
  rfl

/-- The steps of a connection itself bring no bytes. -/
theorem not_arrive_of_steps (consumer : Consumer σ) (l : Listener σ) (steps : List ListenerEvent)
    (hsteps : ∀ event ∈ steps, Own c event) (bytes : List UInt8) :
    .arrive bytes ∉ l.eventsOn consumer c steps := by
  induction steps generalizing l with
  | nil => simp [eventsOn]
  | cons event rest ih =>
    intro he
    rcases List.mem_append.mp he with he | he
    · rw [Option.mem_toList] at he
      rcases hsteps event List.mem_cons_self with rfl | rfl | rfl
      · simp [eventOn?] at he
      · simp only [eventOn?, if_true, Option.map_eq_some_iff] at he
        obtain ⟨notice, -, hevent⟩ := he
        cases hevent
      · simp [eventOn?] at he
    · exact ih _ (fun e he => hsteps e (List.mem_cons_of_mem _ he)) he

theorem Arrives.own (h : l.Arrives consumer c bytes events) {steps : List ListenerEvent}
    (hsteps : ∀ event ∈ steps, Own c event) :
    l.Arrives consumer c bytes (events ++ steps) where
  fresh := h.fresh
  calm := by
    rw [eventsOn_append]
    intro e he
    rcases List.mem_append.mp he with he | he
    · exact h.calm e he
    · exact calm_of_steps consumer _ steps hsteps e he
  received := by
    rw [eventsOn_append, ServingEvent.received_append_quiet _
      (not_arrive_of_steps consumer _ steps hsteps)]
    exact h.received
  alone := by
    intro d hd
    rcases List.mem_append.mp hd with hd | hd
    · exact h.alone d hd
    · rcases hsteps _ hd with he | he | he <;> cases he
      rfl

/-- Once its stream has ended, the steps of the connection itself serve it to its end. -/
theorem Arrives.ends (h : l.Arrives consumer c bytes events) {s : Serving}
    (hs : (l.run consumer events).connections[c]? = some s)
    (hclosed : s.stream.ending = some .closed) :
    ∃ steps, (∀ event ∈ steps, Own c event) ∧
      l.Arrives consumer c bytes (events ++ steps) ∧
      (l.run consumer (events ++ steps)).EndedOn c := by
  obtain ⟨steps, last, hsteps, hlast, hended⟩ := own_run consumer hs hclosed
  refine ⟨steps, hsteps, h.own hsteps, ?_⟩
  rw [run_append, EndedOn, hlast, Option.map_some, hended]

end

structure InPieces (l : Listener σ) (consumer : Consumer σ) (c : Nat) (bytes : List UInt8)
    (events : List ListenerEvent) : Prop where
  /-- What has come of the connection is what serving all bytes at once comes to. -/
  whole : (l.run consumer events).EndedOn c → (l.run consumer events).servedOn c =
    some ((serve consumer l.state bytes).behind [] (l.heardOn c) (l.reportsOn c))
  /-- It is the same in any other way in which they arrive. -/
  same : (l.run consumer events).EndedOn c → ∀ other,
    l.Arrives consumer c bytes other → (l.run consumer other).EndedOn c →
    (l.run consumer other).servedOn c = (l.run consumer events).servedOn c
  /-- After the last byte nobody else is needed. -/
  ends : ∀ s, (l.run consumer events).connections[c]? = some s →
    s.stream.ending = some .closed → ∃ steps, (∀ event ∈ steps, Own c event) ∧
      l.Arrives consumer c bytes (events ++ steps) ∧
      (l.run consumer (events ++ steps)).EndedOn c

theorem Arrives.inPieces {consumer : Consumer σ} {l : Listener σ} {c : Nat} {bytes : List UInt8}
    {events : List ListenerEvent} (h : l.Arrives consumer c bytes events) :
    l.InPieces consumer c bytes events where
  whole := h.served
  same hended other h' hended' := by rw [h'.served hended', h.served hended]
  ends _ hs hclosed := h.ends hs hclosed

end Listener

end GameRelay.Inbound
