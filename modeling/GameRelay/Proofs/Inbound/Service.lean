import GameRelay.Proofs.Inbound.Listener

/-!
# Every request is served once and in order

A connection on which text arrives gets one reply for each line that is a request,
in the order of the lines. Once the stream has ended, the connection's own steps
take it to its end, and nothing but they is needed.
-/

set_option autoImplicit false

namespace GameRelay.Inbound

open GameRelay.Frame GameRelay.Json GameRelay.Text

/-! ## To the end of a stream -/

namespace Serving

def Phase.due : Phase → Nat
  | .reading => 1
  | .calling .. => 3
  | .replying _ => 2
  | .ended => 0

def due (s : Serving) : Nat := 3 * s.stream.ready.length + Phase.due s.phase

structure CanGoOn (s : Serving) : Prop where
  unended : s.phase ≠ .ended
  found : s.phase = .reading → s.stream.read.1 ≠ .nothing

theorem canGoOn_of_ended {s : Serving} {why : Ending} (hended : s.stream.ending = some why)
    (hphase : s.phase ≠ .ended) : s.CanGoOn where
  unended := hphase
  found _ := Stream.found_of_ended hended

theorem read_due {s : Serving} (hfound : s.stream.read.1 ≠ .nothing) (hphase : s.phase = .reading) :
    s.read.1.stream.ending = s.stream.ending ∧ s.read.1.due < s.due := by
  obtain ⟨⟨splitter, ready, ending⟩, phase, written⟩ := s
  obtain rfl : phase = .reading := hphase
  cases ready with
  | nil =>
    cases ending with
    | none => simp [Stream.read] at hfound
    | some why => cases why <;> exact ⟨rfl, by simp [Serving.read, Stream.read, due, Phase.due]⟩
  | cons bytes rest =>
    simp only [Serving.read, Stream.read, due, List.length_cons]
    cases Incoming.ofLine bytes with
    | blank | notRequest | malformed => exact ⟨rfl, by simp only [Phase.due]; omega⟩
    | request r =>
      simp only
      cases Call.ofRequest r <;> exact ⟨rfl, by simp only [Phase.due]; omega⟩

end Serving

namespace Listener

variable {σ : Type} {l : Listener σ} {c : Nat} {s : Serving}

def Own (c : Nat) (event : ListenerEvent) : Prop :=
  event = .read c ∨ event = .handle c ∨ event = .write c

theorem calm_of_own (consumer : Consumer σ) (l : Listener σ) {event : ListenerEvent}
    (h : Own c event) :
    ∀ e ∈ l.eventOn? consumer c event, e.breaks = false := by
  intro e he
  rcases h with rfl | rfl | rfl
  · simp [eventOn?] at he
    exact he ▸ rfl
  · simp only [eventOn?, if_true, Option.mem_def, Option.map_eq_some_iff] at he
    obtain ⟨notice, -, rfl⟩ := he
    rfl
  · simp [eventOn?] at he
    exact he ▸ rfl

/-- As long as there is something to do, a connection can go on by itself. -/
theorem own_step (consumer : Consumer σ) (hs : l.connections[c]? = some s) (hgo : s.CanGoOn) :
    ∃ event s', Own c event ∧ (l.step consumer event).connections[c]? = some s' ∧
      s'.stream.ending = s.stream.ending ∧ s'.due < s.due := by
  cases hp : s.phase with
  | ended => exact absurd hp hgo.unended
  | reading =>
    obtain ⟨hread, hdue⟩ := Serving.read_due (hgo.found hp) hp
    exact ⟨.read c, s.read.1, .inl rfl, onConnection_self hs _, hread, hdue⟩
  | replying response =>
    refine ⟨.write c, s.write, .inr (.inr rfl), onConnection_self hs _, ?_⟩
    simp only [Serving.write, hp, Serving.due, Serving.Phase.due]
    exact ⟨trivial, by omega⟩
  | calling r call =>
    have hwaiting : s.waiting? = some call.notice := by simp [Serving.waiting?, hp]
    have hevent : l.eventOn? consumer c (.handle c) =
        some (.handled (consumer.handle l.state call.notice).2) := by
      simp [eventOn?, hs, hwaiting]
    refine ⟨.handle c, _, .inr (.inl rfl), step_connection hs _, ?_⟩
    rw [hevent]
    simp only [Option.toList_some, Serving.run, Serving.step, Serving.settle, hp, Serving.due,
      Serving.Phase.due]
    exact ⟨trivial, by omega⟩

theorem own_run (consumer : Consumer σ) (hs : l.connections[c]? = some s)
    (hended : s.stream.ending = some .closed) :
    ∃ steps s', (∀ event ∈ steps, Own c event) ∧
      (l.run consumer steps).connections[c]? = some s' ∧ s'.phase = .ended := by
  induction hdue : s.due using Nat.strongRecOn generalizing l s with
  | ind n ih =>
    by_cases hphase : s.phase = .ended
    · exact ⟨[], s, by simp, hs, hphase⟩
    · obtain ⟨event, s', hown, hs', hending, hlt⟩ :=
        own_step consumer hs (Serving.canGoOn_of_ended hended hphase)
      obtain ⟨steps, last, hsteps, hlast, hover⟩ :=
        ih s'.due (hdue ▸ hlt) hs' (hending.trans hended) rfl
      refine ⟨event :: steps, last, ?_, hlast, hover⟩
      intro e he
      rcases List.mem_cons.mp he with rfl | he
      · exact hown
      · exact hsteps e he

theorem calm_of_steps (consumer : Consumer σ) (l : Listener σ) (steps : List ListenerEvent)
    (hsteps : ∀ event ∈ steps, Own c event) :
    ∀ e ∈ l.eventsOn consumer c steps, e.breaks = false := by
  induction steps generalizing l with
  | nil => simp [eventsOn]
  | cons event rest ih =>
    intro e he
    rcases List.mem_append.mp he with he | he
    · exact calm_of_own consumer l (hsteps event List.mem_cons_self) e (by simpa using he)
    · exact ih _ (fun e he => hsteps e (List.mem_cons_of_mem _ he)) e he

/-! ## What a connection has come to -/

/-- A connection of which `whole` is the stream, after these events of the listener. -/
structure Served (consumer : Consumer σ) (l : Listener σ) (c : Nat) (whole : List UInt8)
    (events : List ListenerEvent) (taken : List (List UInt8)) (s : Serving) : Prop where
  connection : (l.run consumer events).connections[c]? = some s
  order : taken <+: lines whole
  /-- Every request that was taken has been answered, the last one perhaps not yet. -/
  course : Serving.Course (taken.filterMap requestOf?) (l.callbacksOn consumer c events)
    s.phase s.written
  /-- The consumer has heard of nothing else. -/
  heard : (l.run consumer events).heardOn c =
    l.heardOn c ++ (l.callbacksOn consumer c events).map Prod.fst
  complete : s.phase = .ended → taken = lines whole

theorem served_of_stands {consumer : Consumer σ} {whole future : List UInt8}
    {taken : List (List UInt8)} {events : List ListenerEvent} (hfresh : l.connections[c]? = some {})
    (h : Serving.Stands whole future taken (l.callbacksOn consumer c events)
      (({} : Serving).run (l.eventsOn consumer c events))) :
    l.Served consumer c whole events taken
      (({} : Serving).run (l.eventsOn consumer c events)) where
  connection := run_connection hfresh events
  order := (List.prefix_append _ _).trans h.stream.isPrefix
  course := h.course
  heard := run_heardOn hfresh events
  complete := h.complete

/-- What has happened to a connection before `after`, where text arrives on it, nothing breaks
and every reply is written. -/
theorem run_served (consumer : Consumer σ) (hfresh : l.connections[c]? = some {}) (text : String)
    (events after : List ListenerEvent)
    (hcalm : ∀ e ∈ l.eventsOn consumer c events, e.breaks = false)
    (hstream : ServingEvent.received (l.eventsOn consumer c (events ++ after)) =
      encode text) :
    ∃ taken s, l.Served consumer c (encode text) events taken s ∧
      (s.stream.ending = some .closed → ∃ steps last, (∀ event ∈ steps, Own c event) ∧
        l.Served consumer c (encode text) (events ++ steps) (lines (encode text)) last ∧
        last.phase = .ended) := by
  have htext : ∀ line ∈ lines (encode text), ∃ piece, decodeLine line = .ok piece := fun _ =>
    decodeLine_of_mem_lines
  have hbytes : ServingEvent.received (l.eventsOn consumer c events ++
      (l.run consumer events).eventsOn consumer c after) = encode text := by
    rw [← eventsOn_append, hstream]
  have hfirst : Serving.Stands (encode text)
      (ServingEvent.received (l.eventsOn consumer c events ++
        (l.run consumer events).eventsOn consumer c after)) [] [] {} := by
    rw [hbytes]
    exact Serving.stands_fresh (encode text)
  obtain ⟨taken, htaken⟩ := hfirst.run htext _ _ hcalm
  rw [List.nil_append, List.nil_append] at htaken
  refine ⟨taken, _, served_of_stands hfresh htaken, ?_⟩
  intro hended
  have hs : (l.run consumer events).connections[c]? = _ := run_connection hfresh events
  obtain ⟨steps, last, hsteps, hlast, hover⟩ := own_run consumer hs hended
  obtain ⟨more, hmore⟩ := (htaken.of_ended hended).run htext _ []
    (calm_of_steps consumer (l.run consumer events) steps hsteps)
  have hrun : (({} : Serving).run (l.eventsOn consumer c (events ++ steps))) = last := by
    have hconnection : (l.run consumer (events ++ steps)).connections[c]? = _ :=
      run_connection hfresh (events ++ steps)
    rw [run_append, hlast] at hconnection
    exact (Option.some.inj hconnection).symm
  have hstands : Serving.Stands (encode text) [] (taken ++ more)
      (l.callbacksOn consumer c (events ++ steps))
      (({} : Serving).run (l.eventsOn consumer c (events ++ steps))) := by
    rw [callbacksOn, eventsOn_append, Serving.callbacks_append, Serving.run_append]
    exact hmore
  have hserved := served_of_stands hfresh hstands
  rw [hrun] at hserved
  exact ⟨steps, last, hsteps, hserved.complete hover ▸ hserved, hover⟩

def counting : Consumer Nat where
  handle n _ :=
    (n + 1,
      if n < 2 then .returned (.number (.ofUInt64 n.toUInt64)) else .panicked (toString n) none)

def noticeThenStatus : String :=
  "\x7b\"method\":\"ClientRPCMethods.GameClosed\",\"params\":[[\"é\"]],\"id\":7\x7d\n \n" ++
    "[\"ClientRPCMethods.Status\",null,null]"

/-- Its first byte arrives alone, and a second connection is served in between. -/
def interleaved : List ListenerEvent :=
  [.arrive 0 ((encode noticeThenStatus).take 1), .accept, .read 0,
    .arrive 1 (encode "[\"ClientRPCMethods.Status\",1,1]\n"), .read 1,
    .arrive 0 ((encode noticeThenStatus).drop 1), .finish 0 .closed, .read 0, .handle 1,
    .read 0, .handle 0, .read 0, .write 0, .read 0, .read 0]

theorem served_interleaved : ∃ taken s,
    ({ state := 0, connections := [{}] } : Listener Nat).Served counting 0
      (encode noticeThenStatus) interleaved taken s ∧
    (s.stream.ending = some .closed → ∃ steps last, (∀ event ∈ steps, Own 0 event) ∧
      ({ state := 0, connections := [{}] } : Listener Nat).Served counting 0
        (encode noticeThenStatus) (interleaved ++ steps) (lines (encode noticeThenStatus)) last ∧
      last.phase = .ended) :=
  run_served counting rfl noticeThenStatus interleaved [] (by decide +kernel)
    (by decide +kernel)

end Listener

end GameRelay.Inbound
