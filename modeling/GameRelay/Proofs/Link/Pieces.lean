import GameRelay.Proofs.Link.Cut

/-!
# Responses that arrive in pieces

What the reader leaves of a link, with what it still makes of the lines that it has
not read, is what it makes of all lines in one go. So a link to which calls have
been registered is left in one state, whatever the pieces are in which the bytes
arrive; and a call that goes on meanwhile returns the same.
-/

set_option autoImplicit false

namespace GameRelay.Outbound

open GameRelay.Frame GameRelay.Json GameRelay.Text

namespace Link

/-! ## All lines in one go -/

def readLines : Link → List (List UInt8) → Link
  | l, [] => { l.shut with reader := .ended }
  | l, line :: rest =>
    match (l.readLine line).reader with
    | .ended => l.readLine line
    | _ => readLines (l.readLine line).hand rest

def finishes (l : Link) (left : List (List UInt8)) : Link :=
  match l.reader with
  | .ended => l
  | _ => l.hand.readLines left

def Feeds (event : LinkEvent) : Prop :=
  ReadersStep event ∨ event = .transport (.finish .closed) ∨
    ∃ bytes, event = .transport (.arrive bytes)

def apart (l : Link) : Link := { l with incoming := {} }

section
variable {l : Link} {line : List UInt8} {left : List (List UInt8)}

theorem readLine_apart (l : Link) (line : List UInt8) :
    (l.readLine line).apart = l.apart.readLine line := by
  unfold readLine
  cases decodeLine line with
  | error what => rfl
  | ok text =>
    simp only
    cases Response.parse text with
    | error error => rfl
    | ok response =>
      simp only [complete, hear, apart]
      cases response.callId? with
      | none => rfl
      | some id =>
        simp only
        cases l.table.lookup id <;> rfl

theorem readLine_incoming (l : Link) (line : List UInt8) :
    (l.readLine line).incoming = l.incoming := by
  unfold readLine
  cases decodeLine line with
  | error what => rfl
  | ok text =>
    simp only
    cases Response.parse text with
    | error error => rfl
    | ok response => exact (complete_stream (l.hear (.line text)) response).1

theorem reader_apart (l : Link) : l.apart.reader = l.reader := rfl

theorem hand_apart (l : Link) : l.hand.apart = l.apart.hand := by
  rw [hand, hand, reader_apart]
  cases l.reader <;> rfl

theorem readLines_apart (l : Link) (left : List (List UInt8)) :
    (l.readLines left).apart = l.apart.readLines left := by
  induction left generalizing l with
  | nil => rfl
  | cons line rest ih =>
    have hreader : (l.apart.readLine line).reader = (l.readLine line).reader := by
      rw [← readLine_apart, reader_apart]
    rw [readLines, readLines, hreader]
    cases (l.readLine line).reader with
    | ended => exact readLine_apart l line
    | idle | handing =>
      simp only
      rw [ih, hand_apart, readLine_apart]

theorem finishes_apart (l : Link) (left : List (List UInt8)) :
    (l.finishes left).apart = l.apart.finishes left := by
  rw [finishes, finishes, reader_apart]
  cases l.reader with
  | ended => rfl
  | idle | handing =>
    simp only
    rw [readLines_apart, hand_apart]

/-- Handing over is the first that is left to do. -/
theorem finishes_hand (h : l.reader ≠ .ended) (left : List (List UInt8)) :
    l.hand.finishes left = l.finishes left := by
  unfold finishes hand
  cases hr : l.reader with
  | ended => exact absurd hr h
  | idle => simp [hr]
  | handing k response => rfl

theorem finishes_cons (hidle : l.reader = .idle) (line : List UInt8) (left : List (List UInt8)) :
    l.finishes (line :: left) = (l.readLine line).finishes left := by
  have hhand : l.hand = l := by rw [hand, hidle]
  rw [finishes, hidle, hhand, readLines, finishes]

theorem finishes_nil (hidle : l.reader = .idle) :
    l.finishes [] = { l.shut with reader := .ended } := by
  have hhand : l.hand = l := by rw [hand, hidle]
  rw [finishes, hidle, hhand, readLines]

end

/-! ## Every moment of the reader -/

def Comes (last : Link) (whole future : List UInt8) (l : Link) : Prop :=
  ∃ taken left, Stream.Holds whole future taken l.incoming ∧ taken ++ left = lines whole ∧
    (l.finishes left).apart = last

section
variable {last l : Link} {whole future : List UInt8}

theorem Comes.read (h : Comes last whole future l) : Comes last whole future l.read := by
  obtain ⟨taken, left, hholds, hleft, hlast⟩ := h
  unfold Link.read
  split
  · rename_i hidle
    split
    · exact ⟨taken, left, hholds, hleft, hlast⟩
    · rename_i bytes incoming hread
      obtain ⟨rest, rfl, hholds', hleft'⟩ := hholds.next hleft hread
      refine ⟨taken ++ [bytes], rest, by rwa [readLine_incoming], hleft', ?_⟩
      have hsame : ({ l with incoming } : Link).apart = l.apart := rfl
      rw [finishes_apart, readLine_apart, hsame, ← finishes_cons (by exact hidle),
        ← finishes_apart, hlast]
    · rename_i incoming hread
      obtain ⟨hholds', -, hall⟩ := hholds.ended hread
      have hnothing : taken ++ left = taken ++ [] := by rw [hleft, hall, List.append_nil]
      obtain rfl := List.append_cancel_left hnothing
      rw [finishes_nil hidle] at hlast
      exact ⟨taken, [], hholds, hleft, hlast⟩
    · rename_i error incoming hread
      obtain ⟨-, hwhy, -⟩ := hholds.ended hread
      cases hwhy
  · exact ⟨taken, left, hholds, hleft, hlast⟩

theorem Comes.hand (h : Comes last whole future l) : Comes last whole future l.hand := by
  obtain ⟨taken, left, hholds, hleft, hlast⟩ := h
  cases hr : l.reader with
  | ended | idle =>
    have hsame : l.hand = l := by rw [Link.hand, hr]
    rw [hsame]
    exact ⟨taken, left, hholds, hleft, hlast⟩
  | handing k response =>
    refine ⟨taken, left, ?_, hleft, ?_⟩
    · rw [(hand_frees hr).2]
      exact hholds
    · rw [finishes_hand (by simp [hr]), hlast]

theorem Comes.step {event : LinkEvent} {rest : List LinkEvent} (hfeeds : Feeds event)
    (h : Comes last whole (LinkEvent.received (event :: rest)) l) :
    Comes last whole (LinkEvent.received rest) (l.step event) := by
  rcases hfeeds with (rfl | rfl) | rfl | ⟨bytes, rfl⟩
  · exact h.read
  · exact h.hand
  · obtain ⟨taken, left, hholds, hleft, hlast⟩ := h
    refine ⟨taken, left, hholds.finish rfl, hleft, ?_⟩
    rw [finishes_apart] at hlast ⊢
    exact hlast
  · obtain ⟨taken, left, hholds, hleft, hlast⟩ := h
    refine ⟨taken, left, hholds.arrive rfl, hleft, ?_⟩
    rw [finishes_apart] at hlast ⊢
    exact hlast

theorem Comes.run {events : List LinkEvent} (hfeeds : ∀ event ∈ events, Feeds event)
    (h : Comes last whole (LinkEvent.received events) l) : Comes last whole [] (l.run events) := by
  induction events generalizing l with
  | nil => exact h
  | cons event rest ih =>
    exact ih (fun e he => hfeeds e (List.mem_cons_of_mem _ he))
      (h.step (hfeeds event List.mem_cons_self))

end

/-- Once the reader is at its end, the link is what all lines in one go make of it. -/
theorem run_readLines {l : Link} (hidle : l.reader = .idle) (hfresh : l.incoming = {})
    {events : List LinkEvent} (hfeeds : ∀ event ∈ events, Feeds event)
    (hended : (l.run events).reader = .ended) :
    (l.run events).apart = (l.readLines (lines (LinkEvent.received events))).apart := by
  have hhand : l.hand = l := by rw [Link.hand, hidle]
  have hcomes : Comes (l.readLines (lines (LinkEvent.received events))).apart
      (LinkEvent.received events) (LinkEvent.received events) l := by
    refine ⟨[], lines (LinkEvent.received events), ?_, rfl, ?_⟩
    · rw [hfresh]
      exact Stream.holds_fresh _
    · rw [finishes, hidle, hhand]
  obtain ⟨taken, left, -, -, hlast⟩ := hcomes.run hfeeds
  rwa [finishes, hended] at hlast

/-! ## What calls make of it afterwards -/

theorem cancel_apart (l : Link) (id : UInt64) : (l.cancel id).apart = l.apart.cancel id := by
  have htable : l.apart.table = l.table := rfl
  rw [cancel, cancel, htable]
  cases l.table.lookup id <;> rfl

theorem register_apart (l : Link) (k : Nat) (c : Call) :
    (l.register k c).apart = l.apart.register k c := by
  have hshut : l.apart.shutDown = l.shutDown := rfl
  rw [register, register, hshut]
  split
  · rfl
  · have henter : (l.enter c.id k).apart = l.apart.enter c.id k := by
      rw [enter, enter, ← cancel_apart]
      rfl
    simp only [← henter]
    rfl

theorem callStep_apart (l : Link) (k : Nat) (step : CallStep) :
    (l.callStep k step).apart = l.apart.callStep k step := by
  have hcalls : l.apart.calls = l.calls := rfl
  rw [callStep, callStep, hcalls]
  cases l.calls[k]? with
  | none => rfl
  | some c =>
    simp only
    split
    · exact register_apart l k c
    · have hwriter : l.apart.writer = l.writer := rfl
      rw [queue, queue, hwriter]
      cases l.writer <;> rfl
    · rw [collect, collect]
      cases c.mailbox <;> rfl
    · rfl
    · rw [← cancel_apart]
      rfl
    · rfl

/-- Calls never look at the stream. -/
theorem run_calls_apart (l : Link) (steps : List LinkEvent)
    (hsteps : ∀ event ∈ steps, ∃ k step, event = .call k step) :
    (l.run steps).apart = l.apart.run steps := by
  induction steps generalizing l with
  | nil => rfl
  | cons event rest ih =>
    obtain ⟨k, step, rfl⟩ := hsteps event List.mem_cons_self
    have hstep : (l.step (.call k step)).apart = l.apart.step (.call k step) :=
      callStep_apart l k step
    rw [run, run, ih _ fun e he => hsteps e (List.mem_cons_of_mem _ he), hstep]

/-! ## The same bytes in two ways -/

/-- A reader that is about to begin is fed these bytes, in whatever pieces, and nothing else
happens. -/
structure Fed (l : Link) (bytes : List UInt8) (events : List LinkEvent) : Prop where
  idle : l.reader = .idle
  fresh : l.incoming = {}
  feeds : ∀ event ∈ events, Feeds event
  received : LinkEvent.received events = bytes

section
variable {l : Link} {bytes : List UInt8} {events other : List LinkEvent}

/-- Two ways in which the same bytes arrive leave the same link. -/
theorem Fed.same (h : l.Fed bytes events) (h' : l.Fed bytes other)
    (hended : (l.run events).reader = .ended) (hended' : (l.run other).reader = .ended) :
    (l.run other).apart = (l.run events).apart := by
  rw [run_readLines h.idle h.fresh h.feeds hended, run_readLines h.idle h.fresh h'.feeds hended',
    h.received, h'.received]

/-- So calls return the same there. -/
theorem Fed.returns (h : l.Fed bytes events) (h' : l.Fed bytes other)
    (hended : (l.run events).reader = .ended) (hended' : (l.run other).reader = .ended)
    {steps : List LinkEvent} (hsteps : ∀ event ∈ steps, ∃ k step, event = .call k step) (k : Nat)
    (o : Outcome) :
    ((l.run other).run steps).Returns k o ↔ ((l.run events).run steps).Returns k o := by
  have hkept : ∀ l : Link, l.apart.calls = l.calls := fun _ => rfl
  have hsame : ((l.run other).run steps).apart = ((l.run events).run steps).apart := by
    rw [run_calls_apart _ steps hsteps, run_calls_apart _ steps hsteps,
      h.same h' hended hended']
  rw [Returns, Returns, ← hkept, hsame, hkept]

/-- Once the stream has ended the reader goes to its end by itself. -/
theorem Fed.ends (h : l.Fed bytes events) {why : Ending}
    (hended : (l.run events).incoming.ending = some why) :
    ∃ steps, (∀ event ∈ steps, ReadersStep event) ∧ l.Fed bytes (events ++ steps) ∧
      (l.run (events ++ steps)).reader = .ended := by
  have hquiet : ∀ steps : List LinkEvent, (∀ event ∈ steps, ReadersStep event) →
      l.Fed bytes (events ++ steps) := by
    intro steps hsteps
    refine ⟨h.idle, h.fresh, ?_, ?_⟩
    · intro event he
      rcases List.mem_append.mp he with he | he
      · exact h.feeds event he
      · exact .inl (hsteps event he)
    · rw [LinkEvent.received_append_quiet, h.received]
      · intro bytes he
        simpa [ReadersStep] using hsteps _ he
      · intro why he
        simpa [ReadersStep] using hsteps _ he
  by_cases hreader : (l.run events).reader = .ended
  · exact ⟨[], by simp, hquiet [] (by simp), by rwa [List.append_nil]⟩
  · obtain ⟨steps, hsteps, hstops, -⟩ := read_to_end hended hreader
    exact ⟨steps, hsteps, hquiet steps hsteps, by rwa [run_append]⟩

end

structure InPieces (l : Link) (bytes : List UInt8) (events : List LinkEvent) : Prop where
  /-- The calls, their mailboxes, the table and the flag are the same in any other way in which
  they arrive, and so are the log and the queue. -/
  same : (l.run events).reader = .ended → ∀ other, l.Fed bytes other →
    (l.run other).reader = .ended → (l.run other).apart = (l.run events).apart
  /-- Whatever steps calls take next, they return the same. -/
  returns : (l.run events).reader = .ended → ∀ other, l.Fed bytes other →
    (l.run other).reader = .ended → ∀ steps, (∀ event ∈ steps, ∃ k step, event = .call k step) →
    ∀ k o, ((l.run other).run steps).Returns k o ↔ ((l.run events).run steps).Returns k o
  /-- After the last byte nobody else is needed. -/
  ends : ∀ why, (l.run events).incoming.ending = some why → ∃ steps,
    (∀ event ∈ steps, ReadersStep event) ∧ l.Fed bytes (events ++ steps) ∧
      (l.run (events ++ steps)).reader = .ended

theorem Fed.inPieces {l : Link} {bytes : List UInt8} {events : List LinkEvent}
    (h : l.Fed bytes events) : l.InPieces bytes events where
  same hended _ h' hended' := h.same h' hended hended'
  returns hended _ h' hended' _ hsteps k o := h.returns h' hended hended' hsteps k o
  ends _ hwhy := h.ends hwhy

/-! ## Calls that go on meanwhile -/

structure SameBytes (setup events other : List LinkEvent) : Prop where
  writes : ∀ event ∈ setup ++ events, event.failsWrite = false
  otherWrites : ∀ event ∈ setup ++ other, event.failsWrite = false
  calm : ∀ event ∈ setup ++ events, event.breaks = false
  otherCalm : ∀ event ∈ setup ++ other, event.breaks = false
  same : LinkEvent.received (setup ++ other) = LinkEvent.received (setup ++ events)

section
variable {setup events other : List LinkEvent} {k : Nat} {c : Call}

/-- A call that waited before anything was heard returns the same in both. -/
theorem SameBytes.agrees (h : SameBytes setup events other)
    (hearly : Early (({} : Link).run setup) k c) (hsole : Sole c.id k events)
    (hotherSole : Sole c.id k other) {o o' : Outcome}
    (ho : (({} : Link).run (setup ++ events)).Returns k o)
    (ho' : (({} : Link).run (setup ++ other)).Returns k o') : o' = o := by
  obtain ⟨all, -, hall, houtcome⟩ :=
    hearly.outcome h.writes hsole (fun _ : True => h.calm) ho
  obtain ⟨all', -, hall', houtcome'⟩ :=
    hearly.outcome h.otherWrites hotherSole (fun _ : True => h.otherCalm) ho'
  rw [hall trivial] at houtcome
  rw [hall' trivial, h.same, houtcome] at houtcome'
  exact (Option.some.inj houtcome').symm

theorem SameBytes.own (h : SameBytes setup events other) {steps : List LinkEvent}
    (hsteps : ∀ event ∈ steps, OwnStep k event) : SameBytes setup events (other ++ steps) where
  writes := h.writes
  otherWrites := by
    intro event he
    rw [← List.append_assoc] at he
    rcases List.mem_append.mp he with he | he
    · exact h.otherWrites event he
    · exact writes_of_ownSteps hsteps event he
  calm := h.calm
  otherCalm := by
    intro event he
    rw [← List.append_assoc] at he
    rcases List.mem_append.mp he with he | he
    · exact h.otherCalm event he
    · rcases hsteps event he with (rfl | rfl) | rfl | rfl | rfl <;> rfl
  same := by
    rw [← List.append_assoc, received_of_ownSteps hsteps, h.same]

/-- Once the stream has ended, a call needs but the reader and itself to return that. -/
theorem SameBytes.returns (h : SameBytes setup events other)
    (hearly : Early (({} : Link).run setup) k c) (hsole : Sole c.id k events)
    (hotherSole : Sole c.id k other) {why : Ending}
    (hended : (({} : Link).run (setup ++ other)).incoming.ending = some why) {now : Call}
    (hnow : (({} : Link).run (setup ++ other)).calls[k]? = some now)
    (hgiven : now.isGivenUp = false) :
    ∃ steps o', (∀ event ∈ steps, OwnStep k event) ∧
      ((({} : Link).run (setup ++ other)).run steps).Returns k o' ∧
      ∀ o, (({} : Link).run (setup ++ events)).Returns k o → o' = o := by
  obtain ⟨hhealthy, now', hk, -, -, hawaiting⟩ := hearly.later h.otherWrites hotherSole
  obtain rfl := Option.some.inj (hk.symm.trans hnow)
  obtain ⟨steps, o', hsteps, hreturns⟩ := returns_of_ended hhealthy hended hk hawaiting hgiven
  refine ⟨steps, o', hsteps, hreturns, ?_⟩
  intro o ho
  rw [← run_append, List.append_assoc] at hreturns
  exact (h.own hsteps).agrees hearly hsole
    (hotherSole.append (sole_of_ownSteps hsteps c.id)) ho hreturns

end

/-- Where the reader is at its end, calls are refused and none is in the table. -/
theorem shut_of_ended {events : List LinkEvent}
    (hwrites : ∀ event ∈ events, event.failsWrite = false)
    (hended : (({} : Link).run events).reader = .ended)
    (hkept : (({} : Link).run events).dropped = false) :
    (({} : Link).run events).shutDown = true ∧ (({} : Link).run events).table = [] := by
  have h := fresh_healthy.run events hwrites
  have hshut := (h.stopped hended).resolve_right fun hdropped => by simp [hkept] at hdropped
  exact ⟨hshut, h.tidy.coherent.shut hshut⟩

structure Meanwhile (setup events other : List LinkEvent) : Prop where
  shut : (({} : Link).run (setup ++ events)).reader = .ended →
    (({} : Link).run (setup ++ events)).dropped = false →
    (({} : Link).run (setup ++ events)).shutDown = true ∧
      (({} : Link).run (setup ++ events)).table = []
  agrees : ∀ k c, Early (({} : Link).run setup) k c → Sole c.id k events → Sole c.id k other →
    ∀ o o', (({} : Link).run (setup ++ events)).Returns k o →
      (({} : Link).run (setup ++ other)).Returns k o' → o' = o
  returns : ∀ k c, Early (({} : Link).run setup) k c → Sole c.id k events → Sole c.id k other →
    ∀ why now, (({} : Link).run (setup ++ other)).incoming.ending = some why →
      (({} : Link).run (setup ++ other)).calls[k]? = some now → now.isGivenUp = false →
      ∃ steps o', (∀ event ∈ steps, OwnStep k event) ∧
        ((({} : Link).run (setup ++ other)).run steps).Returns k o' ∧
        ∀ o, (({} : Link).run (setup ++ events)).Returns k o → o' = o

theorem SameBytes.meanwhile {setup events other : List LinkEvent}
    (h : SameBytes setup events other) : Meanwhile setup events other where
  shut := shut_of_ended h.writes
  agrees _ _ hearly hsole hsole' _ _ ho ho' := h.agrees hearly hsole hsole' ho ho'
  returns _ _ hearly hsole hsole' _ _ hwhy hnow hgiven :=
    h.returns hearly hsole hsole' hwhy hnow hgiven

end Link

end GameRelay.Outbound
