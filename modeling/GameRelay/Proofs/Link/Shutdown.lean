import GameRelay.Proofs.Link.Breaking

/-!
# Shutdown is final

A link that is shut down refuses every call that starts, before anything of it is
queued. A call that was refused or disconnected shows that the link has been shut
down.
-/

set_option autoImplicit false

namespace GameRelay.Outbound

open GameRelay.Frame

namespace Link

/-! ## What a refusal shows -/

def RefusedByShut (l : Link) : Prop :=
  ∀ c ∈ l.calls, c.stage.outcome? = some (.error .shutdown) → l.shutDown = true

theorem response_outcome_ne {response : Response} {want : Want} :
    response.outcome want ≠ .error .shutdown ∧ response.outcome want ≠ .error .lostConnection := by
  rcases response.outcome_cases want with ⟨v, h⟩ | ⟨message, h⟩ | ⟨what, h⟩ <;> simp [h]

theorem step_refusedByShut {l : Link} (h : l.Coherent) (hhalted : l.Halted)
    (hl : l.RefusedByShut) (event : LinkEvent) : (l.step event).RefusedByShut := by
  intro c hc hrefused
  obtain ⟨k, hk⟩ := List.mem_iff_getElem?.mp hc
  have hstays : l.shutDown = true → (l.step event).shutDown = true := fun hshut =>
    (step_shutDown l event).mpr (.inl hshut)
  rcases call_of_step h event hk with ⟨old, hold, hchange⟩ | ⟨-, hstarted⟩
  · have hmem := List.mem_of_getElem? hold
    have hbefore : old.stage.outcome? = some (.error .shutdown) → (l.step event).shutDown = true :=
      fun ho => hstays (hl old hmem ho)
    generalize hs : (l.step event).slot k c = s' at hchange
    obtain rfl : s'.call = c := by rw [← hs]; rfl
    cases hchange with
    | same | overheard | answered | cutOff | passedBy | handed | pushedOut | dropped =>
      exact hbefore hrefused
    | left outcome _ _ hstage =>
      exact hbefore (by simpa [slot, Stage.outcome?] using hstage ▸ hrefused)
    | refused _ _ hshut => exact hstays hshut
    | notQueued _ _ hw hstage => exact hstays (shutDown_of_notQueued hhalted hold hstage hw)
    | collected response =>
      exact absurd (by simpa [Stage.outcome?] using hrefused) response_outcome_ne.1
    | registered | queued | disconnected | abandoned => simp [Stage.outcome?] at hrefused
  · rcases hstarted.stage with hstage | hstage <;>
      simp [hstage, Stage.outcome?, RelayError.unencodable] at hrefused

theorem run_refusedByShut (events : List LinkEvent) {l : Link} (h : l.Coherent)
    (hhalted : l.Halted) (hl : l.RefusedByShut) : (l.run events).RefusedByShut := by
  induction events generalizing l with
  | nil => exact hl
  | cons event rest ih =>
    exact ih (step_coherent h event) (step_halted h hhalted event)
      (step_refusedByShut h hhalted hl event)

theorem shutDown_of_refused (events : List LinkEvent) {c : Call}
    (hc : c ∈ (({} : Link).run events).calls)
    (hs : c.stage.outcome? = some (.error .shutdown)) :
    (({} : Link).run events).shutDown = true :=
  run_refusedByShut events fresh_coherent (.inl rfl) (fun _ h => by simp at h) c hc hs

theorem shutDown_of_firstAnswer {id : UInt64} {log : List Heard} (h : firstAnswer id log = .cut) :
    .shutDown ∈ log := by
  induction log with
  | nil => simp [firstAnswer] at h
  | cons what rest ih =>
    cases what with
    | shutDown => exact List.mem_cons_self
    | line text =>
      rw [firstAnswer] at h
      split at h
      · simp at h
      · exact List.mem_cons_of_mem _ (ih h)

theorem shutDown_of_disconnected (events : List LinkEvent)
    (hlen : (({} : Link).run events).calls.length < UInt64.size) {c : Call}
    (hc : c ∈ (({} : Link).run events).calls)
    (hs : c.stage.outcome? = some (.error .disconnected)) :
    (({} : Link).run events).shutDown = true := by
  obtain ⟨k, hk⟩ := List.mem_iff_getElem?.mp hc
  have hcounted := run_counted events k c hk
  have hlines : ((({} : Link).run events).slot k c).lines ≠ 0 := by
    have hone : c.stage.lines? = some 1 := by
      cases hstage : c.stage <;> simp_all [Stage.outcome?, Stage.lines?, Outcome.lines?]
    have := hcounted.lines.symm.trans hone
    simp_all
  obtain ⟨n, hn⟩ := Option.isSome_iff_exists.mp (hcounted.registered hlines)
  have houtcome := (run_delivered events k c hlen hk).outcome n _ hn hs hlines
  have hcut := (outcome?_eq_disconnected_iff c.want).mp houtcome
  rw [run_shutDown events (l := {}) (by simp)]
  exact List.mem_of_mem_drop (shutDown_of_firstAnswer hcut)

/-! ## Calls that come too late -/

def TooLate (s : Slot) : Prop :=
  s.lines = 0 ∧ (s.call.stage = .numbered ∨ s.call.stage = .ended (some (.error .shutdown)) ∨
    (s.call.argument = .unencodable ∧ s.call.isOver = true))

theorem tooLate_of_change {l l' : Link} {s s' : Slot} (hshut : l.shutDown = true)
    (h : Change l l' s s') (hs : TooLate s) : TooLate s' := by
  obtain ⟨hlines, hstage⟩ := hs
  cases h with
  | registered _ _ hopen => simp [hshut] at hopen
  | queued _ _ hreg => simp [hreg, Call.isOver] at hstage
  | refused => exact ⟨hlines, .inr (.inl rfl)⟩
  | same | overheard | answered | cutOff | passedBy | handed | pushedOut | dropped =>
    exact ⟨hlines, hstage⟩
  | notQueued _ _ _ hgoing | collected _ _ _ hgoing | disconnected _ _ hgoing
  | abandoned _ _ hgoing | left _ _ _ hgoing => simp [hgoing, Call.isOver] at hstage

theorem tooLate_of_started {l : Link} {event : LinkEvent} {c : Call}
    (h : Started l (l.step event) c) : TooLate ⟨l.calls.length, c, false, none, 0⟩ := by
  obtain ⟨method, argument, want, -, -, hstart⟩ := start_of_started h
  have hcalls := h.calls
  rw [hstart] at hcalls
  simp only [start, List.append_cancel_left_eq, List.cons.injEq, and_true] at hcalls
  subst hcalls
  cases argument with
  | value v => exact ⟨rfl, .inl rfl⟩
  | unencodable => exact ⟨rfl, .inr (.inr ⟨rfl, rfl⟩)⟩

theorem run_tooLate (events : List LinkEvent) {l : Link} (h : l.Tidy) (hshut : l.shutDown = true)
    {n : Nat} (hn : n ≤ l.calls.length)
    (hl : ∀ k c, l.calls[k]? = some c → n ≤ k → TooLate (l.slot k c)) :
    ∀ k c, (l.run events).calls[k]? = some c → n ≤ k → TooLate ((l.run events).slot k c) := by
  induction events generalizing l with
  | nil => exact hl
  | cons event rest ih =>
    have hle := length_le_step l event
    apply ih (step_tidy h event) ((step_shutDown l event).mpr (.inl hshut)) (by omega)
    intro k c hk hnk
    rcases call_of_step h.coherent event hk with ⟨old, hold, hchange⟩ | ⟨rfl, hstarted⟩
    · exact tooLate_of_change hshut hchange (hl k old hold hnk)
    · rw [slot_of_started h hstarted]
      exact tooLate_of_started hstarted

/-- A call that starts on a link that is shut down. -/
theorem tooLate_of_shutDown {l : Link} (h : l.Tidy) (hshut : l.shutDown = true)
    (events : List LinkEvent) {k : Nat} {c : Call} (hk : (l.run events).calls[k]? = some c)
    (hlate : l.calls.length ≤ k) : TooLate ((l.run events).slot k c) := by
  apply run_tooLate events h hshut (Nat.le_refl _) _ k c hk hlate
  intro j cj hj hjn
  have := (List.getElem?_eq_some_iff.mp hj).1
  omega

theorem not_queued_of_tooLate {l : Link} {k : Nat} {c : Call} (h : TooLate (l.slot k c)) :
    k ∉ l.queued :=
  List.count_eq_zero.mp h.1

theorem refused_of_tooLate {l : Link} {k : Nat} {c : Call} (h : TooLate (l.slot k c))
    (hline : c.argument ≠ .unencodable) :
    c.stage = .numbered ∨ c.stage = .ended (some (.error .shutdown)) := by
  rcases h.2 with hs | hs | ⟨hno, -⟩
  · exact .inl hs
  · exact .inr hs
  · exact absurd hno hline

/-- The next step of such a call ends it. -/
theorem register_refused {l : Link} (hshut : l.shutDown = true) {k : Nat} {c : Call}
    (hk : l.calls[k]? = some c) (hs : c.stage = .numbered) :
    (l.step (.call k .register)).calls[k]? =
      some { c with stage := .ended (some (.error .shutdown)) } := by
  have hstep : l.step (.call k .register) = l.setStage k (.ended (some (.error .shutdown))) := by
    simp [step, callStep, hk, hs, register, hshut]
  rw [hstep]
  exact setStage_call l _ hk

/-! ## Shutdown -/

structure ShutdownFinal (l : Link) : Prop where
  stays : l.shutDown = true → ∀ events, (l.run events).shutDown = true
  /-- A call that starts later never queues a line. -/
  unsent : l.shutDown = true → ∀ events k c, (l.run events).calls[k]? = some c →
    l.calls.length ≤ k → k ∉ (l.run events).queued
  /-- It was refused, or its next step refuses it. -/
  refused : l.shutDown = true → ∀ events k c, (l.run events).calls[k]? = some c →
    l.calls.length ≤ k → c.argument ≠ .unencodable →
    c.stage = .ended (some (.error .shutdown)) ∨
      (c.stage = .numbered ∧ ((l.run events).step (.call k .register)).calls[k]? =
        some { c with stage := .ended (some (.error .shutdown)) })
  meant : ∀ c ∈ l.calls, c.stage = .ended (some (.error .shutdown)) ∨
    c.stage = .ended (some (.error .disconnected)) → l.shutDown = true
  /-- Nothing but the end of the link, a line that is not text or a failed write shuts it
  down. -/
  cause : ∀ event, (l.step event).shutDown = true ↔
    l.shutDown = true ∨ ∃ transport, event = .transport transport ∧ l.Breaks transport
  /-- Whatever a line says, and whether or not it answers a call. -/
  lines : ∀ text, l.Reads text → (l.step (.transport .read)).shutDown = l.shutDown
  /-- Whatever a call does or comes to, also where it is given up or has no line. -/
  calls : ∀ event, (∀ transport, event ≠ .transport transport) →
    (l.step event).shutDown = l.shutDown

theorem run_shutdownFinal (events : List LinkEvent)
    (hlen : (({} : Link).run events).calls.length < UInt64.size) :
    (({} : Link).run events).ShutdownFinal := by
  have h := run_tidy fresh_tidy events
  have hrefused := fun c hc => shutDown_of_refused events (c := c) hc
  have hcut := fun c hc => shutDown_of_disconnected events hlen (c := c) hc
  generalize ({} : Link).run events = l at h hrefused hcut
  constructor
  case stays =>
    intro hshut more
    exact run_shutDown_of more hshut
  case unsent =>
    intro hshut more k c hk hlate
    exact not_queued_of_tooLate (tooLate_of_shutDown h hshut more hk hlate)
  case refused =>
    intro hshut more k c hk hlate hline
    rcases refused_of_tooLate (tooLate_of_shutDown h hshut more hk hlate) hline with hs | hs
    · exact .inr ⟨hs, register_refused (run_shutDown_of more hshut) hk hs⟩
    · exact .inl hs
  case meant =>
    rintro c hc (hs | hs)
    · exact hrefused c hc (congrArg Stage.outcome? hs)
    · exact hcut c hc (congrArg Stage.outcome? hs)
  case cause =>
    intro event
    exact step_shutDown l event
  case lines =>
    intro text hreads
    rcases heard_of_move (step_move l (.transport .read)) with
      ⟨-, hshut⟩ | ⟨-, -, -, -, hshut⟩ | ⟨hheard, -⟩
    · exact hshut
    · exact hshut
    · have hline : (l.step (.transport .read)).heard = l.heard ++ [.line text] :=
        heard_of_reads hreads
      simp [hheard] at hline
  case calls =>
    intro event hevent
    exact shutDown_of_move (step_move l event) (hevent _) fun error => hevent _

end Link

end GameRelay.Outbound
