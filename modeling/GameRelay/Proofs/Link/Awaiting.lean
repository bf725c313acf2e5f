import GameRelay.Proofs.Link.Reading

/-!
# A call that waits

On a link that never fails to write, a call that waits is decided by what is heard,
as long as no other call of its id goes on. The number of calls does not matter.
-/

set_option autoImplicit false

namespace GameRelay.Outbound

def LinkEvent.caller? : LinkEvent → Option Nat
  | .call k _ => some k
  | _ => none

def Sole (id : UInt64) (k : Nat) (events : List LinkEvent) : Prop :=
  ∀ event ∈ events, ∀ j ∈ event.caller?, UInt64.ofNat j = id → j = k

theorem Sole.append {id : UInt64} {k : Nat} {events more : List LinkEvent}
    (h : Sole id k events) (hmore : Sole id k more) : Sole id k (events ++ more) := by
  intro event he
  rcases List.mem_append.mp he with he | he
  · exact h event he
  · exact hmore event he

namespace Link

/-! ## A link that never fails to write -/

def Running (l : Link) : Prop :=
  l.writer = .running ∨ (l.dropped = true ∧ ∀ c ∈ l.calls, c.isOver = true)

theorem step_running {l : Link} (h : l.Coherent) (hl : l.Running) {event : LinkEvent}
    (hwrite : event.failsWrite = false) : (l.step event).Running := by
  rcases hl with hrun | ⟨hdropped, hover⟩
  · rcases writer_of_move (step_move l event) with hw | ⟨⟨error, rfl⟩, -⟩ | hfailed | hgone
    · exact .inl (hw.trans hrun)
    · simp [LinkEvent.failsWrite] at hwrite
    · simp [hrun] at hfailed
    · exact .inr hgone
  · exact .inr ⟨dropped_of_step event hdropped, calls_over_of_step h hdropped hover event⟩

def Stopped (l : Link) : Prop :=
  l.reader = .ended →
    l.shutDown = true ∨ (l.dropped = true ∧ ∀ c ∈ l.calls, c.isOver = true)

theorem stopped_of_move {l l' : Link} {event : LinkEvent} (h : l.Move event l')
    (hended : l'.reader = .ended) : l.reader = .ended ∨ l'.shutDown = true ∨
      (l'.dropped = true ∧ ∀ c ∈ l'.calls, c.isOver = true) := by
  cases h with
  | readEnded => exact .inr (.inl rfl)
  | discarded hall => exact .inr (.inr ⟨rfl, List.all_eq_true.mp hall⟩)
  | taken | handed => simp at hended
  | registered | left => exact .inl (by simpa [enter, setStage] using hended)
  | none | started | refused | queued | notQueued | collected | disconnected | abandoned | arrived
  | finished | overheard | wrote | writeFailed | queueClosed => exact .inl hended

theorem step_stopped {l : Link} (h : l.Coherent) (hl : l.Stopped) (event : LinkEvent) :
    (l.step event).Stopped := by
  intro hended
  rcases stopped_of_move (step_move l event) hended with hbefore | hnow
  · rcases hl hbefore with hshut | ⟨hdropped, hover⟩
    · exact .inl ((step_shutDown l event).mpr (.inl hshut))
    · exact .inr ⟨dropped_of_step event hdropped, calls_over_of_step h hdropped hover event⟩
  · exact hnow

structure Healthy (l : Link) : Prop where
  tidy : l.Tidy
  running : l.Running
  stopped : l.Stopped
  shut : l.shutDown = true ↔ .shutDown ∈ l.heard

theorem fresh_healthy : ({} : Link).Healthy :=
  ⟨fresh_tidy, .inl rfl, by simp [Stopped], by simp⟩

theorem Healthy.step {l : Link} (h : l.Healthy) {event : LinkEvent}
    (hwrite : event.failsWrite = false) : (l.step event).Healthy where
  tidy := step_tidy h.tidy event
  running := step_running h.tidy.coherent h.running hwrite
  stopped := step_stopped h.tidy.coherent h.stopped event
  shut := run_shutDown [event] h.shut

theorem Healthy.run {l : Link} (h : l.Healthy) (events : List LinkEvent)
    (hwrites : ∀ event ∈ events, event.failsWrite = false) : (l.run events).Healthy := by
  induction events generalizing l with
  | nil => exact h
  | cons event rest ih =>
    exact ih (h.step (hwrites event List.mem_cons_self))
      fun e he => hwrites e (List.mem_cons_of_mem _ he)

/-! ## A call that waits -/

end Link

namespace Slot

theorem not_since_of_numbered {s : Slot} (h : s.Sound) (hs : s.call.stage = .numbered) :
    s.call.since = none := by
  have hsince := h.since (by simp [Call.isOver, hs])
  simpa [hs, Stage.isEntered] using hsince

theorem since_kept_of_change {l l' : Link} {s s' : Slot} (hsound : s.Sound) {n : Nat}
    (hsince : s.call.since = some n) (hchange : Change l l' s s') : s'.call.since = some n := by
  cases hchange with
  | registered _ _ _ hs => simp [not_since_of_numbered hsound hs] at hsince
  | same | overheard | answered | cutOff | passedBy | handed | refused | queued | notQueued
  | collected | disconnected | abandoned | left | pushedOut | dropped => exact hsince

/-- It has queued its line, or is about to. -/
theorem sent_of_change {l l' : Link} {s s' : Slot} (hsound : s.Sound) {n : Nat}
    (hsince : s.call.since = some n) (hwriter : l.writer = .running ∨ s.call.isOver = true)
    (h : s.call.stage = .registered ∨ s.lines ≠ 0) (hchange : Change l l' s s') :
    s'.call.stage = .registered ∨ s'.lines ≠ 0 := by
  cases hchange with
  | same | overheard | answered | cutOff | passedBy | handed | pushedOut | dropped => exact h
  | refused _ _ _ hs => simp [not_since_of_numbered hsound hs] at hsince
  | registered => exact .inl rfl
  | queued => exact .inr (Nat.succ_ne_zero _)
  | notQueued _ _ hw hs => simp [hw, Call.isOver, hs] at hwriter
  | collected _ _ _ hs | disconnected _ _ hs | abandoned _ _ hs | left _ _ _ hs =>
    right
    simpa [hs] using h

structure Awaiting (l : Link) (s : Slot) : Prop where
  counted : s.Counted l
  delivered : s.Delivered l
  since : s.call.since = some 0
  sent : s.call.stage = .registered ∨ s.lines ≠ 0

theorem Awaiting.letter {l : Link} {s : Slot} (h : s.Awaiting l)
    (hent : s.call.stage.isEntered = true) : s.letter = firstAnswer s.call.id l.heard :=
  h.delivered.letter 0 h.since hent

/-- What was heard decides what it returns. -/
theorem Awaiting.outcome {l : Link} {s : Slot} (h : s.Awaiting l) {o : Outcome}
    (hs : s.call.stage = .ended (some o)) :
    (firstAnswer s.call.id l.heard).outcome? s.call.want = some o := by
  have hlines : s.lines ≠ 0 := h.sent.resolve_left (by simp [hs])
  exact h.delivered.outcome 0 o h.since (congrArg Stage.outcome? hs) hlines

end Slot

namespace Link

/-- The entry of a call stays as long as nothing is heard and it does not leave. -/
theorem entry_stays {l l' : Link} {event : LinkEvent} (h : l.Tidy) (hmove : l.Move event l')
    {k : Nat} {c : Call} (hk : l.calls[k]? = some c) (hentry : (c.id, k) ∈ l.table)
    (hheard : l'.heard = l.heard)
    (hsole : ∀ j ∈ event.caller?, ∀ cj, l.calls[j]? = some cj → cj.isOver = false →
      cj.id = c.id → j = k) :
    (c.id, k) ∈ l'.table ∨ ∃ c', l'.calls[k]? = some c' ∧ c'.stage.isEntered = false := by
  cases hmove with
  | none | started | refused | queued | notQueued | collected | disconnected | abandoned
  | arrived | finished | handed | wrote | queueClosed | discarded => exact .inl hentry
  | overheard | taken | readEnded | writeFailed => simp [shut, hear, report] at hheard
  | registered j cj hj hs =>
    left
    by_cases hid : c.id = cj.id
    · obtain rfl := hsole j rfl cj hj (by simp [Call.isOver, hs]) hid.symm
      obtain rfl := Option.some.inj (hj.symm.trans hk)
      exact absurd hentry (h.coherent.not_listed hk (by simp [hs, Stage.isEntered]))
    · exact List.mem_cons_of_mem _ ((mem_cancel l cj.id _).mpr ⟨hentry, hid⟩)
  | left j cj outcome hj hs =>
    by_cases hid : c.id = cj.id
    · right
      obtain rfl := hsole j rfl cj hj (by simp [Call.isOver, hs]) hid.symm
      obtain rfl := Option.some.inj (hj.symm.trans hk)
      exact ⟨_, setStage_call _ _ (cancel_call h.coherent cj.id hk), rfl⟩
    · exact .inl ((mem_cancel l cj.id _).mpr ⟨hentry, hid⟩)

/-- What was delivered stays so where no other call of that id takes the step. -/
theorem delivered_of_step {l : Link} (h : l.Tidy) {event : LinkEvent} {k : Nat} {c c' : Call}
    (hk : l.calls[k]? = some c) (hk' : (l.step event).calls[k]? = some c')
    (hcounted : (l.slot k c).Counted l) (hdelivered : (l.slot k c).Delivered l)
    (hsole : c.isOver = false → ∀ j ∈ event.caller?, ∀ cj, l.calls[j]? = some cj →
      cj.isOver = false → cj.id = c.id → j = k) :
    ((l.step event).slot k c').Delivered (l.step event) := by
  obtain ⟨c'', hk'', hchange⟩ := step_changes h.coherent event k c hk
  obtain rfl := Option.some.inj (hk''.symm.trans hk')
  have hid : c''.id = c.id := (change_static hchange).1
  have hsound := h.sound k c hk
  have hstays : (l.slot k c).listed = true → (l.step event).heard = l.heard →
      c''.stage.isEntered = true → ((l.step event).slot k c'').listed = true := by
    intro hl hheard hent
    have hentry : (c.id, k) ∈ l.table := by simpa [slot] using hl
    have hgoing := (pending_of_listed h hk hentry).going
    rcases entry_stays h (step_move l event) hk hentry hheard (hsole hgoing) with
      hentry' | ⟨last, hlast, hout⟩
    · simpa [slot, hid] using hentry'
    · obtain rfl := Option.some.inj (hlast.symm.trans hk')
      simp [hent] at hout
  exact ⟨Slot.letter_of_change hsound hcounted hdelivered hchange hstays,
    Slot.outcome_of_change hsound hcounted hdelivered hchange⟩

theorem awaiting_of_step {l : Link} (h : l.Healthy) {event : LinkEvent} {k : Nat} {c : Call}
    (hk : l.calls[k]? = some c) (ha : (l.slot k c).Awaiting l)
    (hsole : ∀ j ∈ event.caller?, UInt64.ofNat j = c.id → j = k) :
    ∃ c', (l.step event).calls[k]? = some c' ∧ c'.id = c.id ∧ c'.want = c.want ∧
      ((l.step event).slot k c').Awaiting (l.step event) := by
  obtain ⟨c', hk', hchange⟩ := step_changes h.tidy.coherent event k c hk
  obtain ⟨hid, -, -, hwant, -⟩ := change_static hchange
  have hsound := h.tidy.sound k c hk
  have hdelivered := delivered_of_step h.tidy hk hk' ha.counted ha.delivered
    fun _ j hj cj hcj _ hcjId => hsole j hj ((h.tidy.numbered.ids j cj hcj).symm.trans hcjId)
  have hwriter : l.writer = .running ∨ c.isOver = true := by
    rcases h.running with hrun | ⟨-, hover⟩
    · exact .inl hrun
    · exact .inr (hover c (List.mem_of_getElem? hk))
  refine ⟨c', hk', hid, hwant, ?_⟩
  exact ⟨Slot.counted_of_change hsound ha.counted hchange, hdelivered,
    Slot.since_kept_of_change hsound ha.since hchange,
    Slot.sent_of_change hsound ha.since hwriter ha.sent hchange⟩

theorem run_awaiting (events : List LinkEvent) {l : Link} (h : l.Healthy)
    (hwrites : ∀ event ∈ events, event.failsWrite = false) {k : Nat} {c : Call}
    (hk : l.calls[k]? = some c) (ha : (l.slot k c).Awaiting l) (hsole : Sole c.id k events) :
    ∃ c', (l.run events).calls[k]? = some c' ∧ c'.id = c.id ∧ c'.want = c.want ∧
      ((l.run events).slot k c').Awaiting (l.run events) := by
  induction events generalizing l c with
  | nil => exact ⟨c, hk, rfl, rfl, ha⟩
  | cons event rest ih =>
    obtain ⟨c', hk', hid, hwant, ha'⟩ :=
      awaiting_of_step h hk ha (hsole event List.mem_cons_self)
    have hsole' : Sole c'.id k rest := fun e he => hid ▸ hsole e (List.mem_cons_of_mem _ he)
    obtain ⟨last, hlast, hlastId, hlastWant, halast⟩ :=
      ih (h.step (hwrites event List.mem_cons_self))
        (fun e he => hwrites e (List.mem_cons_of_mem _ he)) hk' ha' hsole'
    exact ⟨last, hlast, hlastId.trans hid, hlastWant.trans hwant, halast⟩

end Link

end GameRelay.Outbound
