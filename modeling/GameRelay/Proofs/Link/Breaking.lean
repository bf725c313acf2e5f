import GameRelay.Proofs.Link.Matching

/-!
# What shuts a link down

A link is shut down by what ends it and by nothing else. Unless it was, its queue
takes every line that a call has registered for.
-/

set_option autoImplicit false

namespace GameRelay.Outbound

open GameRelay.Frame GameRelay.Text

namespace Link

inductive Breaks (l : Link) : TransportEvent → Prop where
  | ended (why : Ending) : l.reader = .idle → l.incoming.read.1 = .ended why → Breaks l .read
  | malformed (bytes : List UInt8) (what : Malformed) : l.reader = .idle →
      l.incoming.read.1 = .line bytes → decodeLine bytes = .error what → Breaks l .read
  | writeFailed (error : SystemError) : l.writer = .running → l.unwritten ≠ [] →
      Breaks l (.writeFailed error)

theorem complete_shutDown (l : Link) (response : Response) :
    (l.complete response).shutDown = l.shutDown := by
  unfold complete
  split
  · rfl
  · split <;> rfl

theorem readLine_shutDown {l : Link} {bytes : List UInt8} :
    (l.readLine bytes).shutDown = true ↔
      l.shutDown = true ∨ ∃ what, decodeLine bytes = .error what := by
  unfold readLine
  split
  · rename_i what hbytes
    simp [report, shut, hbytes]
  · rename_i text hbytes
    split
    · rw [complete_shutDown]
      simp [hear, hbytes]
    · simp [report, hear, hbytes]

theorem breaks_read_iff {l : Link} : l.Breaks .read ↔ l.reader = .idle ∧
    ((∃ why, l.incoming.read.1 = .ended why) ∨
      ∃ bytes what, l.incoming.read.1 = .line bytes ∧ decodeLine bytes = .error what) := by
  constructor
  · intro h
    cases h with
    | ended why hidle hread => exact ⟨hidle, .inl ⟨why, hread⟩⟩
    | malformed bytes what hidle hread hbytes =>
      exact ⟨hidle, .inr ⟨bytes, what, hread, hbytes⟩⟩
  · rintro ⟨hidle, ⟨why, hread⟩ | ⟨bytes, what, hread, hbytes⟩⟩
    · exact .ended why hidle hread
    · exact .malformed bytes what hidle hread hbytes

theorem read_shutDown (l : Link) :
    l.read.shutDown = true ↔ l.shutDown = true ∨ l.Breaks .read := by
  rw [breaks_read_iff]
  unfold read
  split
  · rename_i hidle
    split <;> rename_i hread
    · simp [hread]
    · rw [readLine_shutDown]
      simp [hidle, hread]
    · simp [hidle, hread, shut]
    · simp [hidle, hread, report, shut]
  · rename_i hbusy
    exact ⟨.inl, fun h => h.resolve_right fun hbreaks => hbusy hbreaks.1⟩

/-- A step that is neither of the reader's nor a failed write leaves it as it is. -/
theorem shutDown_of_move {l l' : Link} {event : LinkEvent} (h : l.Move event l')
    (hread : event ≠ .transport .read)
    (hwrite : ∀ error, event ≠ .transport (.writeFailed error)) : l'.shutDown = l.shutDown := by
  cases h with
  | overheard | taken | readEnded => exact absurd rfl hread
  | writeFailed error => exact absurd rfl (hwrite error)
  | registered | left => simp [enter, setStage]
  | none | started | refused | queued | notQueued | collected | disconnected | abandoned | arrived
  | finished | handed | wrote | queueClosed | discarded => rfl

theorem not_breaks {l : Link} {event : TransportEvent} (hread : event ≠ .read)
    (hwrite : ∀ error, event ≠ .writeFailed error) : ¬ l.Breaks event := by
  intro h
  cases h with
  | ended | malformed => exact hread rfl
  | writeFailed error => exact hwrite error rfl

theorem failWrite_shutDown (l : Link) (error : SystemError) :
    (l.failWrite error).shutDown = true ↔ l.shutDown = true ∨ l.Breaks (.writeFailed error) := by
  have hbreaks : l.Breaks (.writeFailed error) ↔ l.writer = .running ∧ l.unwritten ≠ [] := by
    constructor
    · rintro ⟨⟩
      exact ⟨‹_›, ‹_›⟩
    · rintro ⟨hw, hu⟩
      exact .writeFailed error hw hu
  rw [hbreaks]
  unfold failWrite
  split
  · rename_i hw hu
    simp [hw, hu, report, shut]
  · rename_i hno
    cases hw : l.writer <;> cases hu : l.unwritten <;> simp_all

theorem step_shutDown (l : Link) (event : LinkEvent) :
    (l.step event).shutDown = true ↔
      l.shutDown = true ∨ ∃ transport, event = .transport transport ∧ l.Breaks transport := by
  by_cases hread : event = .transport .read
  · subst hread
    change l.read.shutDown = true ↔ _
    simpa using read_shutDown l
  by_cases hwrite : ∃ error, event = .transport (.writeFailed error)
  · obtain ⟨error, rfl⟩ := hwrite
    change (l.failWrite error).shutDown = true ↔ _
    simpa using failWrite_shutDown l error
  · have hwrite : ∀ error, event ≠ .transport (.writeFailed error) := fun error he =>
      hwrite ⟨error, he⟩
    rw [shutDown_of_move (step_move l event) hread hwrite]
    constructor
    · exact .inl
    · rintro (h | ⟨transport, rfl, hbreaks⟩)
      · exact h
      · exact absurd hbreaks (not_breaks (fun he => hread (he ▸ rfl))
          fun error he => hwrite error (he ▸ rfl))

theorem run_shutDown_of (events : List LinkEvent) {l : Link} (h : l.shutDown = true) :
    (l.run events).shutDown = true := by
  induction events generalizing l with
  | nil => exact h
  | cons event rest ih => exact ih ((step_shutDown l event).mpr (.inl h))

/-! ## A closed queue -/

def Halted (l : Link) : Prop :=
  l.writer = .running ∨ l.shutDown = true ∨ (l.dropped = true ∧ ∀ c ∈ l.calls, c.isOver = true)

theorem over_of_change {l l' : Link} {s s' : Slot} (h : Change l l' s s')
    (hs : s.call.isOver = true) : s'.call.isOver = true := by
  cases h <;> simp_all [Call.isOver]

/-- A call starts by a start, and on a link that was not dropped. -/
theorem start_of_started {l : Link} {event : LinkEvent} {c : Call}
    (h : Started l (l.step event) c) : ∃ method argument want,
      event = .start method argument want ∧ l.dropped = false ∧
        l.step event = l.start method argument want := by
  have hlen : (l.step event).calls.length = l.calls.length + 1 := by simp [h.calls]
  by_cases hevent : ∃ method argument want, event = .start method argument want
  · obtain ⟨method, argument, want, rfl⟩ := hevent
    have hlive : l.dropped = false := by
      cases hdropped : l.dropped with
      | false => rfl
      | true => simp [step, hdropped] at hlen
    exact ⟨method, argument, want, rfl, hlive, by simp [step, hlive]⟩
  · have hsame := (length_of_move (step_move l event) fun method argument want he =>
      hevent ⟨method, argument, want, he⟩).1
    omega

theorem calls_over_of_step {l : Link} (h : l.Coherent) (hdropped : l.dropped = true)
    (hover : ∀ c ∈ l.calls, c.isOver = true) (event : LinkEvent) :
    ∀ c ∈ (l.step event).calls, c.isOver = true := by
  intro c hc
  obtain ⟨k, hk⟩ := List.mem_iff_getElem?.mp hc
  rcases call_of_step h event hk with ⟨old, hold, hchange⟩ | ⟨-, hstarted⟩
  · exact over_of_change hchange (hover old (List.mem_of_getElem? hold))
  · obtain ⟨-, -, -, -, hlive, -⟩ := start_of_started hstarted
    simp [hdropped] at hlive

theorem dropped_of_step {l : Link} (event : LinkEvent) (h : l.dropped = true) :
    (l.step event).dropped = true := by
  have hmove := step_move l event
  generalize l.step event = l' at hmove
  cases hmove with
  | started _ _ _ hd => simp [h] at hd
  | registered | left =>
    simp only [enter, cancel, setStage]
    split <;> exact h
  | discarded => rfl
  | none | refused | queued | notQueued | collected | disconnected | abandoned | arrived | finished
  | overheard | taken | readEnded | handed | wrote | writeFailed | queueClosed => exact h

theorem writer_of_move {l l' : Link} {event : LinkEvent} (h : l.Move event l') :
    l'.writer = l.writer ∨
      ((∃ error, event = .transport (.writeFailed error)) ∧ l'.shutDown = true) ∨
      l.writer = .failed ∨ (l'.dropped = true ∧ ∀ c ∈ l'.calls, c.isOver = true) := by
  cases h with
  | writeFailed error => exact .inr (.inl ⟨⟨error, rfl⟩, rfl⟩)
  | queueClosed hw => exact .inr (.inr (.inl hw))
  | discarded hall => exact .inr (.inr (.inr ⟨rfl, List.all_eq_true.mp hall⟩))
  | registered | left =>
    left
    simp only [enter, cancel, setStage]
    split <;> rfl
  | none | started | refused | queued | notQueued | collected | disconnected | abandoned | arrived
  | finished | overheard | taken | readEnded | handed | wrote => exact .inl rfl

theorem step_halted {l : Link} (h : l.Coherent) (hl : l.Halted) (event : LinkEvent) :
    (l.step event).Halted := by
  rcases hl with hrun | hshut | ⟨hdropped, hover⟩
  · rcases writer_of_move (step_move l event) with hw | ⟨-, hshut⟩ | hfailed | hgone
    · exact .inl (hw.trans hrun)
    · exact .inr (.inl hshut)
    · simp [hrun] at hfailed
    · exact .inr (.inr hgone)
  · exact .inr (.inl ((step_shutDown l event).mpr (.inl hshut)))
  · exact .inr (.inr ⟨dropped_of_step event hdropped, calls_over_of_step h hdropped hover event⟩)

theorem run_halted (events : List LinkEvent) {l : Link} (h : l.Coherent) (hl : l.Halted) :
    (l.run events).Halted := by
  induction events generalizing l with
  | nil => exact hl
  | cons event rest ih => exact ih (step_coherent h event) (step_halted h hl event)

/-- The queue takes every line that a call has registered for, unless it was shut down. -/
theorem shutDown_of_notQueued {l : Link} (hhalted : l.Halted) {k : Nat} {c : Call}
    (hk : l.calls[k]? = some c) (hs : c.stage = .registered) (hw : l.writer = .ended) :
    l.shutDown = true := by
  rcases hhalted with hrun | hshut | ⟨-, hover⟩
  · simp [hw] at hrun
  · exact hshut
  · simpa [Call.isOver, hs] using hover c (List.mem_of_getElem? hk)

end Link

end GameRelay.Outbound
