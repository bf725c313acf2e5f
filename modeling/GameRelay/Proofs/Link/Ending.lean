import GameRelay.Proofs.Link.Awaiting

/-!
# Calls at the end of a link

Once the stream has ended the reader goes on to its end, and then a call ends by
steps of its own unless it was given up.
-/

set_option autoImplicit false

namespace GameRelay.Outbound

open GameRelay.Frame GameRelay.Text

def Call.isGivenUp (c : Call) : Bool :=
  match c.stage with
  | .leaving none | .ended none => true
  | _ => false

theorem Call.outcome_of_isOver {c : Call} (hover : c.isOver = true)
    (hgiven : c.isGivenUp = false) : ∃ o, c.stage = .ended (some o) := by
  cases hs : c.stage with
  | ended outcome =>
    cases outcome with
    | none => simp [isGivenUp, hs] at hgiven
    | some o => exact ⟨o, rfl⟩
  | numbered | registered | waiting | leaving => simp [isOver, hs] at hover

namespace Link

/-! ## The reader's way to its end -/

def ReadersStep (event : LinkEvent) : Prop := event = .transport .read ∨ event = .transport .hand

theorem hand_frees {l : Link} {k : Nat} {response : Response}
    (hr : l.reader = .handing k response) :
    l.hand.reader = .idle ∧ l.hand.incoming = l.incoming := by
  simp [hand, hr]

/-- The reader can always go on at the end of the stream, until the link is shut down. -/
theorem read_on {l : Link} {why : Ending} (hended : l.incoming.ending = some why)
    (hidle : l.reader = .idle) :
    (l.read.reader = .ended ∧ l.read.shutDown = true) ∨
      (l.read.incoming.ready.length < l.incoming.ready.length ∧
        l.read.incoming.ending = some why ∧ l.read.reader ≠ .ended) := by
  rcases read_readStep l with ⟨hnothing, -⟩ | ⟨bytes, text, hread, -, -, hopen, -⟩ |
    ⟨bytes, what, hread, hbytes, -, hstops, -⟩ | ⟨why', hread, -, hstops, -⟩
  · exact absurd (hnothing hidle) (Stream.found_of_ended hended)
  · right
    obtain ⟨hready, hending⟩ := Stream.ready_of_read_line hread
    exact ⟨by simp [hready], hending.trans hended, hopen⟩
  · exact .inl ⟨hstops, (read_shutDown l).mpr
      (.inr (.malformed bytes what hidle (congrArg Prod.fst hread) hbytes))⟩
  · exact .inl ⟨hstops, (read_shutDown l).mpr
      (.inr (.ended why' hidle (congrArg Prod.fst hread)))⟩

/-- By induction on the lines that are ready; the reader's hand is emptied before each. -/
theorem read_to_end {l : Link} {why : Ending} (hended : l.incoming.ending = some why)
    (hopen : l.reader ≠ .ended) :
    ∃ steps, (∀ event ∈ steps, ReadersStep event) ∧ (l.run steps).reader = .ended ∧
      (l.run steps).shutDown = true := by
  induction hn : l.incoming.ready.length using Nat.strongRecOn generalizing l with
  | ind n ih =>
    have hidleCase : ∀ l' : Link, l'.incoming = l.incoming → l'.reader = .idle →
        ∃ steps, (∀ event ∈ steps, ReadersStep event) ∧ (l'.run steps).reader = .ended ∧
          (l'.run steps).shutDown = true := by
      intro l' hincoming hidle
      rcases read_on (l := l') (hincoming ▸ hended) hidle with hshut | ⟨hlt, hending, hgoing⟩
      · exact ⟨[.transport .read], by simp [ReadersStep], hshut⟩
      · rw [hincoming, hn] at hlt
        obtain ⟨steps, hsteps, hshut⟩ := ih _ hlt hending hgoing rfl
        refine ⟨.transport .read :: steps, ?_, hshut⟩
        simpa [ReadersStep] using hsteps
    cases hr : l.reader with
    | ended => exact absurd hr hopen
    | idle => exact hidleCase l rfl hr
    | handing k response =>
      obtain ⟨hidle, hincoming⟩ := hand_frees hr
      obtain ⟨steps, hsteps, hshut⟩ := hidleCase l.hand hincoming hidle
      refine ⟨.transport .hand :: steps, ?_, hshut⟩
      simpa [ReadersStep] using hsteps

theorem stage_of_readersStep {l : Link} (h : l.Coherent) {event : LinkEvent}
    (hevent : ReadersStep event) {k : Nat} {c : Call} (hk : l.calls[k]? = some c) :
    ∃ c', (l.step event).calls[k]? = some c' ∧ c'.stage = c.stage := by
  have hmove := step_move l event
  generalize l.step event = l' at hmove
  rcases hevent with rfl | rfl
  · cases hmove with
    | none | overheard | taken => exact ⟨c, hk, rfl⟩
    | readEnded =>
      refine ⟨_, shut_call h hk, ?_⟩
      split <;> rfl
  · cases hmove with
    | none => exact ⟨c, hk, rfl⟩
    | handed j response =>
      by_cases hjk : j = k
      · exact ⟨{ c with mailbox := .answered response }, by simp [hk, hjk], rfl⟩
      · exact ⟨c, by simp [hk, hjk], rfl⟩

theorem stage_of_readersSteps {l : Link} (h : l.Coherent) {steps : List LinkEvent}
    (hsteps : ∀ event ∈ steps, ReadersStep event) {k : Nat} {c : Call}
    (hk : l.calls[k]? = some c) :
    ∃ c', (l.run steps).calls[k]? = some c' ∧ c'.stage = c.stage := by
  induction steps generalizing l c with
  | nil => exact ⟨c, hk, rfl⟩
  | cons event rest ih =>
    obtain ⟨c', hk', hstage⟩ := stage_of_readersStep h (hsteps event List.mem_cons_self) hk
    obtain ⟨last, hlast, hlastStage⟩ := ih (step_coherent h event)
      (fun e he => hsteps e (List.mem_cons_of_mem _ he)) hk'
    exact ⟨last, hlast, hlastStage.trans hstage⟩

/-! ## A call's way to its end -/

def OwnStep (k : Nat) (event : LinkEvent) : Prop :=
  ReadersStep event ∨ event = .call k .queue ∨ event = .call k .collect ∨ event = .call k .leave

section
variable {k : Nat} {steps : List LinkEvent} (hsteps : ∀ event ∈ steps, OwnStep k event)
include hsteps

theorem writes_of_ownSteps : ∀ event ∈ steps, event.failsWrite = false := by
  intro event he
  rcases hsteps event he with (rfl | rfl) | rfl | rfl | rfl <;> rfl

/-- Own steps bring no bytes. -/
theorem received_of_ownSteps (events : List LinkEvent) :
    LinkEvent.received (events ++ steps) = LinkEvent.received events := by
  apply LinkEvent.received_append_quiet
  · intro bytes he
    simpa [OwnStep, ReadersStep] using hsteps _ he
  · intro why he
    simpa [OwnStep, ReadersStep] using hsteps _ he

theorem sole_of_ownSteps (id : UInt64) : Sole id k steps := by
  intro event he j hj _
  rcases hsteps event he with (rfl | rfl) | rfl | rfl | rfl <;>
    simp [LinkEvent.caller?] at hj <;> exact hj.symm

end

def Returns (l : Link) (k : Nat) (o : Outcome) : Prop :=
  ∃ c, l.calls[k]? = some c ∧ c.stage = .ended (some o)

theorem firstAnswer_of_shutDown {id : UInt64} {log : List Heard} (h : .shutDown ∈ log) :
    firstAnswer id log ≠ .empty := by
  induction log with
  | nil => simp at h
  | cons what rest ih =>
    cases what with
    | shutDown => simp [firstAnswer]
    | line text =>
      rw [firstAnswer]
      cases answer? id text with
      | some response => simp
      | none => exact ih (by simpa using h)

section
variable {l : Link} {k : Nat} {c : Call}

/-- A call that waits on a link that is shut down has something to return. -/
theorem returns_of_waiting (h : l.Healthy) (hshut : l.shutDown = true)
    (hk : l.calls[k]? = some c) (ha : (l.slot k c).Awaiting l) (hs : c.stage = .waiting) :
    ∃ steps o, (∀ event ∈ steps, OwnStep k event) ∧ (l.run steps).Returns k o := by
  have hletter : (l.slot k c).letter = firstAnswer c.id l.heard :=
    ha.letter (by simp [slot, hs, Stage.isEntered])
  obtain ⟨o, ho⟩ : ∃ o, (l.slot k c).letter.outcome? c.want = some o := by
    rw [hletter]
    cases hfirst : firstAnswer c.id l.heard with
    | empty => exact absurd hfirst (firstAnswer_of_shutDown (h.shut.mp hshut))
    | answered response => exact ⟨_, rfl⟩
    | cut => exact ⟨_, rfl⟩
  obtain ⟨c', hk', hs'⟩ := run_returning h.tidy.coherent hk hs ho
  exact ⟨returning k, o, by simp [returning, OwnStep, ReadersStep], c', hk', hs'⟩

theorem returns_of_shutDown (h : l.Healthy) (hshut : l.shutDown = true)
    (hk : l.calls[k]? = some c) (ha : (l.slot k c).Awaiting l) (hgiven : c.isGivenUp = false) :
    ∃ steps o, (∀ event ∈ steps, OwnStep k event) ∧ (l.run steps).Returns k o := by
  cases hs : c.stage with
  | numbered =>
    have hnone := Slot.not_since_of_numbered (h.tidy.sound k c hk) hs
    simp [ha.since] at hnone
  | registered =>
    have hwriter : l.writer ≠ .ended := by
      rcases h.running with hrun | ⟨-, hover⟩
      · simp [hrun]
      · have := hover c (List.mem_of_getElem? hk)
        simp [Call.isOver, hs] at this
    have hqueue : (l.step (.call k .queue)).calls[k]? = some { c with stage := .waiting } := by
      simp only [step, callStep, hk, hs, queue]
      exact setStage_call l _ hk
    have hsole : ∀ j ∈ (LinkEvent.call k .queue).caller?, UInt64.ofNat j = c.id → j = k :=
      fun j hj _ => (Option.some.inj hj).symm
    obtain ⟨c', hk', -, -, ha'⟩ := awaiting_of_step h hk ha hsole
    obtain rfl := Option.some.inj (hqueue.symm.trans hk')
    obtain ⟨steps, o, hsteps, hreturns⟩ := returns_of_waiting (h.step rfl)
      (run_shutDown_of [.call k .queue] hshut) hk' ha' rfl
    refine ⟨.call k .queue :: steps, o, ?_, hreturns⟩
    simpa [OwnStep] using hsteps
  | waiting => exact returns_of_waiting h hshut hk ha hs
  | leaving outcome =>
    cases outcome with
    | none => simp [Call.isGivenUp, hs] at hgiven
    | some o =>
      obtain ⟨c', hk', hs'⟩ := leave_stage h.tidy.coherent hk hs
      exact ⟨[.call k .leave], o, by simp [OwnStep], c', hk', hs'⟩
  | ended outcome =>
    obtain ⟨o, ho⟩ := Call.outcome_of_isOver (by simp [Call.isOver, hs]) hgiven
    exact ⟨[], o, by simp, c, hk, ho⟩

/-- Once the stream has ended, the reader and the call itself need nobody else for the call to
return. -/
theorem returns_of_ended (h : l.Healthy) {why : Ending} (hended : l.incoming.ending = some why)
    (hk : l.calls[k]? = some c) (ha : (l.slot k c).Awaiting l) (hgiven : c.isGivenUp = false) :
    ∃ steps o, (∀ event ∈ steps, OwnStep k event) ∧ (l.run steps).Returns k o := by
  by_cases hreader : l.reader = .ended
  · rcases h.stopped hreader with hshut | ⟨-, hover⟩
    · exact returns_of_shutDown h hshut hk ha hgiven
    · obtain ⟨o, hs⟩ := Call.outcome_of_isOver (hover c (List.mem_of_getElem? hk)) hgiven
      exact ⟨[], o, by simp, c, hk, hs⟩
  · obtain ⟨steps, hsteps, -, hshut⟩ := read_to_end hended hreader
    have hown : ∀ event ∈ steps, OwnStep k event := fun e he => .inl (hsteps e he)
    obtain ⟨c', hk', hstage⟩ := stage_of_readersSteps h.tidy.coherent hsteps hk
    obtain ⟨last, hlast, -, -, halast⟩ := run_awaiting steps h (writes_of_ownSteps hown) hk ha
      (sole_of_ownSteps hown c.id)
    obtain rfl := Option.some.inj (hlast.symm.trans hk')
    obtain ⟨more, o, hmore, hreturns⟩ := returns_of_shutDown
      (h.run steps (writes_of_ownSteps hown)) hshut hk' halast
      (by simpa [Call.isGivenUp, hstage] using hgiven)
    refine ⟨steps ++ more, o, ?_, by rwa [run_append]⟩
    intro event he
    rcases List.mem_append.mp he with he | he
    · exact hown event he
    · exact hmore event he

end

end Link

end GameRelay.Outbound
