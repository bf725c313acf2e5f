import GameRelay.Proofs.Inbound.Yields

/-!
# A connection as if it were alone

What a connection writes, and which callbacks run for it, is what serving its lines
in one go gives, whichever steps it takes and whatever else the consumer does in
between. The lines that have been read are the first ones of the stream.
-/

set_option autoImplicit false

namespace GameRelay.Inbound

open GameRelay.Frame GameRelay.Text

variable {σ : Type}

namespace Serving

/-- Where a connection is with the lines that were taken, the state in which its callbacks leave
the consumer, the notices that were handled and the replies that were written. -/
inductive Alone (consumer : Consumer σ) (start : σ) :
    List (List UInt8) → σ → List Notice → Phase → List Response → Prop where
  | reading (taken : List (List UInt8)) (last : σ) (notices : List Notice)
      (written : List Response) : (∀ line ∈ taken, ∃ text, decodeLine line = .ok text) →
      Yields consumer start taken last written notices →
      Alone consumer start taken last notices .reading written
  | calling (taken : List (List UInt8)) (line : List UInt8) (r : Request) (call : Call) (last : σ)
      (notices : List Notice) (written : List Response) :
      (∀ line ∈ taken, ∃ text, decodeLine line = .ok text) →
      Incoming.ofLine line = .request r → Call.ofRequest r = .ok call →
      Yields consumer start taken last written notices →
      Alone consumer start (taken ++ [line]) last notices (.calling r call) written
  | replying (taken : List (List UInt8)) (last : σ) (notices : List Notice)
      (written : List Response) (response : Response) :
      (∀ line ∈ taken, ∃ text, decodeLine line = .ok text) →
      Yields consumer start taken last (written ++ [response]) notices →
      Alone consumer start taken last notices (.replying response) written
  /-- One reply may have been lost. -/
  | ended (taken : List (List UInt8)) (last : σ) (notices : List Notice) (written : List Response)
      (lost : List Response) : Yields consumer start taken last (written ++ lost) notices →
      Alone consumer start taken last notices .ended written

section
variable {consumer : Consumer σ} {start last : σ} {taken : List (List UInt8)}
  {line : List UInt8} {written : List Response} {notices : List Notice} {r : Request} {call : Call}

theorem Alone.passed (h : Alone consumer start taken last notices .reading written)
    (htext : ∃ text, decodeLine line = .ok text) (hline : ∀ r, Incoming.ofLine line ≠ .request r) :
    Alone consumer start (taken ++ [line]) last notices .reading written := by
  cases h with
  | reading taken last notices written hall hyields =>
    exact .reading _ last notices written (forall_concat hall htext) (hyields.passed hall hline)

theorem Alone.called (h : Alone consumer start taken last notices .reading written)
    (hline : Incoming.ofLine line = .request r) (hcall : Call.ofRequest r = .ok call) :
    Alone consumer start (taken ++ [line]) last notices (.calling r call) written := by
  cases h with
  | reading taken last notices written hall hyields =>
    exact .calling taken line r call last notices written hall hline hcall hyields

theorem Alone.refused {why : Rejection}
    (h : Alone consumer start taken last notices .reading written)
    (hline : Incoming.ofLine line = .request r) (hcall : Call.ofRequest r = .error why) :
    Alone consumer start (taken ++ [line]) last notices
      (.replying (.failed r.id why.message)) written := by
  cases h with
  | reading taken last notices written hall hyields =>
    have hmore := hyields.request hall hline
    simp only [respond, hcall, List.append_nil] at hmore
    exact .replying _ last notices written _
      (forall_concat hall (text_of_incoming (by simp [hline]))) hmore

theorem Alone.handled (h : Alone consumer start taken last notices (.calling r call) written) :
    Alone consumer start taken (consumer.handle last call.notice).1 (notices ++ [call.notice])
      (.replying (call.respond r (consumer.handle last call.notice).2)) written := by
  cases h with
  | calling taken line r call last notices written hall hline hcall hyields =>
    have hmore := hyields.request hall hline
    simp only [respond, hcall] at hmore
    exact .replying _ _ _ written _
      (forall_concat hall (text_of_incoming (by simp [hline]))) hmore

theorem Alone.replied {response : Response}
    (h : Alone consumer start taken last notices (.replying response) written) :
    Alone consumer start taken last notices .reading (written ++ [response]) := by
  cases h with
  | replying taken last notices written response hall hyields =>
    exact .reading taken last notices _ hall hyields

/-- The reply that was due is lost. -/
theorem Alone.failed {response : Response}
    (h : Alone consumer start taken last notices (.replying response) written) :
    Alone consumer start taken last notices .ended written := by
  cases h with
  | replying taken last notices written response hall hyields =>
    exact .ended taken last notices written [response] hyields

theorem Alone.closed (h : Alone consumer start taken last notices .reading written) :
    Alone consumer start taken last notices .ended written := by
  cases h with
  | reading taken last notices written hall hyields =>
    exact .ended taken last notices written [] (by rwa [List.append_nil])

theorem Alone.yields (h : Alone consumer start taken last notices .reading written) :
    (∀ line ∈ taken, ∃ text, decodeLine line = .ok text) ∧
      Yields consumer start taken last written notices := by
  cases h with
  | reading taken last notices written hall hyields => exact ⟨hall, hyields⟩

/-- Nothing was written but replies to the lines that were taken, in order, and no notice was
handled or is due but theirs. -/
theorem Alone.isPrefix {s : Serving} (h : Alone consumer start taken last notices s.phase s.written)
    {all : List (List UInt8)} (hall : taken <+: all) :
    s.written <+: (serveLines consumer start all).responses ∧
      notices ++ s.waiting?.toList <+: (serveLines consumer start all).notices := by
  obtain ⟨more, rfl⟩ := hall
  have hgrows := serveLines_isPrefix consumer start taken more
  obtain ⟨stream, phase, written⟩ := s
  cases h with
  | reading taken last notices written htext hyields =>
    rw [waiting?, Option.toList_none, List.append_nil, ← hyields.responses, ← hyields.notices]
    exact hgrows
  | calling taken line r call last notices written htext hline hcall hyields =>
    have hmore := hyields.request htext hline
    simp only [respond, hcall] at hmore
    rw [waiting?, Option.toList_some, ← hmore.notices]
    refine ⟨?_, hgrows.2⟩
    exact (hmore.responses ▸ List.prefix_append _ _).trans hgrows.1
  | replying taken last notices written response htext hyields =>
    rw [waiting?, Option.toList_none, List.append_nil, ← hyields.notices]
    refine ⟨?_, hgrows.2⟩
    exact (hyields.responses ▸ List.prefix_append _ _).trans hgrows.1
  | ended taken last notices written lost hyields =>
    rw [waiting?, Option.toList_none, List.append_nil, ← hyields.notices]
    refine ⟨?_, hgrows.2⟩
    exact (hyields.responses ▸ List.prefix_append _ _).trans hgrows.1

end

/-! ## Every moment of a connection -/

structure Follows (consumer : Consumer σ) (start : σ) (calm : Prop) (whole future : List UInt8)
    (taken : List (List UInt8)) (ran : List (Notice × Reaction)) (last : σ) (s : Serving) :
    Prop where
  stream : Stream.Fed whole future taken s.stream
  unbroken : calm → Stream.Holds whole future taken s.stream
  callbacks : Ran consumer start ran last
  alone : Alone consumer start taken last (ran.map Prod.fst) s.phase s.written
  complete : calm → s.phase = .ended →
    Yields consumer start (lines whole) last s.written (ran.map Prod.fst)

section
variable {consumer : Consumer σ} {start last : σ} {calm : Prop}
  {whole future after : List UInt8} {taken : List (List UInt8)} {ran : List (Notice × Reaction)}
  {s : Serving}

theorem follows_fresh (consumer : Consumer σ) (start : σ) (calm : Prop) (whole : List UInt8) :
    Follows consumer start calm whole whole [] [] start {} where
  stream := .inl (Stream.holds_fresh whole)
  unbroken _ := Stream.holds_fresh whole
  callbacks := rfl
  alone := .reading [] start [] [] (by simp) (yields_nil consumer start)
  complete _ hended := by cases hended

theorem Follows.read (h : Follows consumer start calm whole future taken ran last s) :
    ∃ more, Follows consumer start calm whole future (taken ++ more) ran last s.read.1 := by
  have halone := h.alone
  obtain ⟨stream, phase, written⟩ := s
  cases phase with
  | calling | replying | ended => exact ⟨[], by simpa [Serving.read] using h⟩
  | reading =>
    rcases hread : stream.read with ⟨reading, stream'⟩
    cases reading with
    | nothing => exact ⟨[], by simpa [Serving.read, hread] using h⟩
    | ended why =>
      have hstream := h.stream.ended hread
      have hunbroken := fun hcalm => ((h.unbroken hcalm).ended hread).1
      have hall := fun hcalm => ((h.unbroken hcalm).ended hread).2.2
      refine ⟨[], ?_⟩
      rw [List.append_nil]
      cases why with
      | closed | broken error =>
        simp only [Serving.read, hread]
        exact ⟨hstream, hunbroken, h.callbacks, halone.closed,
          fun hcalm _ => hall hcalm ▸ halone.yields.2⟩
    | line bytes =>
      have hstream := h.stream.line hread
      have hunbroken := fun hcalm => ((h.unbroken hcalm).line hread).1
      obtain ⟨htext, hyields⟩ := halone.yields
      refine ⟨[bytes], ?_⟩
      simp only [Serving.read, hread]
      cases hline : Incoming.ofLine bytes with
      | blank =>
        have htextLine : ∃ text, decodeLine bytes = .ok text := text_of_incoming (by simp [hline])
        exact ⟨hstream, hunbroken, h.callbacks, halone.passed htextLine (by simp [hline]),
          fun _ => by simp⟩
      | notRequest e =>
        have htextLine : ∃ text, decodeLine bytes = .ok text := text_of_incoming (by simp [hline])
        exact ⟨hstream, hunbroken, h.callbacks, halone.passed htextLine (by simp [hline]),
          fun _ => by simp⟩
      | malformed what =>
        have hended : Alone consumer start (taken ++ [bytes]) last (ran.map Prod.fst) .ended
            written :=
          .ended _ _ _ _ [] (by rw [List.append_nil]; exact hyields.stopped htext hline [])
        refine ⟨hstream, hunbroken, h.callbacks, hended, ?_⟩
        intro hcalm _
        obtain ⟨more, hmore⟩ := (hunbroken hcalm).isPrefix
        have hwhole := hyields.stopped htext hline (stream'.ready ++ more)
        rw [← hmore]
        simpa using hwhole
      | request r =>
        cases hcall : Call.ofRequest r with
        | ok call =>
          simp only [hcall]
          exact ⟨hstream, hunbroken, h.callbacks, halone.called hline hcall, fun _ => by simp⟩
        | error why =>
          simp only [hcall]
          exact ⟨hstream, hunbroken, h.callbacks, halone.refused hline hcall, fun _ => by simp⟩

/-- One event, whatever it is. -/
theorem Follows.step {event : ServingEvent} {rest : List ServingEvent}
    (hcalm : calm → event.breaks = false) {final : σ}
    (hran : Ran consumer start (ran ++ (s.callback? event).toList) final)
    (h : Follows consumer start calm whole (ServingEvent.received (event :: rest)) taken ran
      last s) :
    ∃ more, Follows consumer start calm whole (ServingEvent.received rest) (taken ++ more)
      (ran ++ (s.callback? event).toList) final (s.step event) := by
  have halone := h.alone
  by_cases hhandled : s.callback? event = none
  · -- Without a callback the consumer stays as it is.
    rw [hhandled, Option.toList_none, List.append_nil] at hran ⊢
    obtain rfl := h.callbacks.unique hran
    obtain ⟨stream, phase, written⟩ := s
    cases event with
    | arrive bytes =>
      exact ⟨[], by simpa using ⟨h.stream.arrive rfl, fun hc => (h.unbroken hc).arrive rfl,
        h.callbacks, halone, h.complete⟩⟩
    | finish why =>
      refine ⟨[], ?_⟩
      rw [List.append_nil]
      refine ⟨h.stream.finish rfl why, ?_, h.callbacks, halone, h.complete⟩
      intro hc
      cases why with
      | closed => exact (h.unbroken hc).finish rfl
      | broken error => simp [ServingEvent.breaks, hc] at hcalm
    | read => exact h.read
    | handled reaction =>
      refine ⟨[], ?_⟩
      rw [List.append_nil]
      cases phase with
      | calling r call => simp [callback?, waiting?] at hhandled
      | reading | replying | ended => exact h
    | write =>
      refine ⟨[], ?_⟩
      rw [List.append_nil]
      cases phase with
      | replying response =>
        exact ⟨h.stream, h.unbroken, h.callbacks, halone.replied, fun _ he => by cases he⟩
      | reading | calling | ended => exact h
    | writeFailed error =>
      refine ⟨[], ?_⟩
      rw [List.append_nil]
      cases phase with
      | replying response =>
        refine ⟨h.stream, h.unbroken, h.callbacks, halone.failed, ?_⟩
        intro hc
        simp [ServingEvent.breaks, hc] at hcalm
      | reading | calling | ended => exact h
  · obtain ⟨stream, phase, written⟩ := s
    cases event with
    | handled reaction =>
      cases phase with
      | calling r call =>
        have hcallback : callback? ⟨stream, .calling r call, written⟩ (.handled reaction) =
            some (call.notice, reaction) := rfl
        rw [hcallback, Option.toList_some] at hran ⊢
        obtain ⟨middle, hmiddle, hreaction, hfinal⟩ := ran_append.mp hran
        obtain rfl := h.callbacks.unique hmiddle
        obtain rfl : (consumer.handle last call.notice).2 = reaction := hreaction
        obtain rfl : (consumer.handle last call.notice).1 = final := hfinal
        refine ⟨[], ?_⟩
        rw [List.append_nil]
        refine ⟨h.stream, h.unbroken, h.callbacks.concat call.notice, ?_, fun _ he => by cases he⟩
        rw [List.map_append]
        exact halone.handled
      | reading | replying | ended => exact absurd rfl hhandled
    | arrive | finish | read | write | writeFailed => exact absurd rfl hhandled

/-- Any number of events. -/
theorem Follows.run (events rest : List ServingEvent)
    (hcalm : calm → ∀ event ∈ events, event.breaks = false) {final : σ}
    (hran : Ran consumer start (ran ++ s.callbacks events) final)
    (h : Follows consumer start calm whole (ServingEvent.received (events ++ rest)) taken ran
      last s) :
    ∃ more, Follows consumer start calm whole (ServingEvent.received rest) (taken ++ more)
      (ran ++ s.callbacks events) final (s.run events) := by
  induction events generalizing s taken ran last with
  | nil =>
    rw [Serving.callbacks, List.append_nil] at hran ⊢
    obtain rfl := h.callbacks.unique hran
    exact ⟨[], by simpa [Serving.run] using h⟩
  | cons event events ih =>
    rw [Serving.callbacks, ← List.append_assoc] at hran ⊢
    obtain ⟨middle, hfirst, -⟩ := ran_append.mp hran
    obtain ⟨first, hstep⟩ := h.step (fun hc => hcalm hc event List.mem_cons_self) hfirst
    obtain ⟨more, hmore⟩ := ih (fun hc e he => hcalm hc e (List.mem_cons_of_mem _ he)) hran hstep
    exact ⟨first ++ more, by simpa [Serving.run] using hmore⟩

/-- A run of a connection that was just accepted, with the reactions that its callbacks had. -/
theorem follows_run (calm : Prop) (events later : List ServingEvent)
    (hcalm : calm → ∀ event ∈ events, event.breaks = false) :
    ∃ taken, Follows scripted ((({} : Serving).callbacks events).map Prod.snd) calm
      (ServingEvent.received (events ++ later)) (ServingEvent.received later) taken
      (({} : Serving).callbacks events) [] (({} : Serving).run events) := by
  have hran := ran_scripted (({} : Serving).callbacks events) []
  rw [List.append_nil] at hran
  have hfresh := follows_fresh scripted
    ((({} : Serving).callbacks events).map Prod.snd) calm
    (ServingEvent.received (events ++ later))
  exact Follows.run events later hcalm hran hfresh

end

end Serving

end GameRelay.Inbound
