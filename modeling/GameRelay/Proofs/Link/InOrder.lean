import GameRelay.Proofs.Inbound.Answer
import GameRelay.Proofs.Link.Shutdown
import GameRelay.Proofs.Link.Wire

/-!
# Lines in the order of the calls

Where a call starts only after all earlier ones are over, the lines are queued in
the order of the calls, and none is passed over. A call that queues no line was
refused, and no later call queues one on that link.
-/

set_option autoImplicit false

namespace GameRelay.Outbound

open GameRelay.Frame GameRelay.Json GameRelay.Text

namespace Link

inductive Unqueued (l : Link) (k : Nat) (stage : Stage) : Prop where
  | next : k = l.queued.length → k + 1 = l.calls.length →
      stage = .numbered ∨ stage = .registered → Unqueued l k stage
  | never : l.shutDown = true → stage ≠ .registered → Unqueued l k stage

structure InOrder (l : Link) : Prop where
  queued : l.queued = List.range l.queued.length
  rest : ∀ k c, l.calls[k]? = some c → l.queued.length ≤ k → l.Unqueued k c.stage

/-- Until the link is shut down, only the last call can be without its line. -/
theorem InOrder.mem_queued {l : Link} (h : l.InOrder) (hopen : l.shutDown = false) {k : Nat}
    (hk : k + 1 < l.calls.length) : k ∈ l.queued := by
  rw [h.queued, List.mem_range]
  by_contra hrest
  have hc := List.getElem?_eq_getElem (Nat.lt_of_succ_lt hk)
  cases h.rest k _ hc (Nat.le_of_not_lt hrest) with
  | next _ hlast => omega
  | never hshut => simp [hopen] at hshut

theorem fresh_inOrder : ({} : Link).InOrder :=
  ⟨rfl, fun _ _ hk => by simp at hk⟩

/-! ## One call -/

section
variable {l l' : Link} {k : Nat} {c c' : Call}

theorem shutDown_of_change {s s' : Slot} (h : Change l l' s s') (hshut : l.shutDown = true) :
    l'.shutDown = true := by
  cases h <;> simp_all

theorem unqueued_of_change (hhalted : l.Halted) (hk : l.calls[k]? = some c)
    (hqueued : l'.queued = l.queued) (hlength : l'.calls.length = l.calls.length)
    (hchange : Change l l' (l.slot k c) (l'.slot k c')) (h : l.Unqueued k c.stage) :
    l'.Unqueued k c'.stage := by
  have hstays := shutDown_of_change hchange
  have hlines : (l'.slot k c').lines = (l.slot k c).lines := by simp [slot, hqueued]
  generalize hs' : l'.slot k c' = s' at hchange hlines
  obtain rfl : s'.call = c' := by rw [← hs']; rfl
  cases hchange with
  | same | overheard | answered | cutOff | passedBy | handed | pushedOut | dropped =>
    cases h with
    | next hnext hlast hs => exact .next (hqueued ▸ hnext) (hlength ▸ hlast) hs
    | never hshut hs => exact .never (hstays hshut) hs
  | refused _ _ hshut => exact .never (hstays hshut) (by simp)
  | registered _ _ hopen =>
    cases h with
    | next hnext hlast => exact .next (hqueued ▸ hnext) (hlength ▸ hlast) (.inr rfl)
    | never hshut => simp [hopen] at hshut
  | queued => simp at hlines
  | notQueued _ _ hw hs =>
    exact .never (hstays (shutDown_of_notQueued hhalted hk hs hw)) (by simp)
  | collected _ _ _ hs | disconnected _ _ hs | abandoned _ _ hs | left _ _ _ hs =>
    have hs : c.stage = _ := hs
    cases h with
    | next _ _ hearly => simp [hs] at hearly
    | never hshut => exact .never (hstays hshut) (by simp)

theorem registered_of_queued {s s' : Slot} (h : Change l l' s s') (hlines : s'.lines ≠ s.lines) :
    s.call.stage = .registered := by
  cases h with
  | queued _ _ hs => exact hs
  | same | overheard | answered | cutOff | passedBy | handed | refused | registered | notQueued
  | collected | disconnected | abandoned | left | pushedOut | dropped => exact absurd rfl hlines

/-- The call that queues its line is the last one, and the next in the queue. -/
theorem InOrder.next_of_queued (h : l.InOrder) (hcounted : (l.slot k c).Counted l)
    (hk : l.calls[k]? = some c) (hqueued : l'.queued = l.queued ++ [k])
    (hchange : Change l l' (l.slot k c) (l'.slot k c')) :
    k = l.queued.length ∧ k + 1 = l.calls.length := by
  have hs : c.stage = .registered := by
    apply registered_of_queued hchange
    simp [slot, hqueued]
  have hnew : k ∉ l.queued := List.count_eq_zero.mp (Slot.lines_eq_zero hcounted (.inr hs))
  rw [h.queued, List.mem_range, Nat.not_lt] at hnew
  cases h.rest k c hk hnew with
  | next hnext hlast => exact ⟨hnext, hlast⟩
  | never _ hne => exact absurd hs hne

end

/-! ## The steps of a link -/

/-- A step that starts no call. -/
theorem inOrder_of_step (earlier : List LinkEvent) {event : LinkEvent}
    (hstart : ∀ method argument want, event ≠ .start method argument want)
    (h : (({} : Link).run earlier).InOrder) :
    ((({} : Link).run earlier).step event).InOrder := by
  have htidy := run_tidy fresh_tidy earlier
  have hhalted := run_halted earlier fresh_coherent (.inl rfl)
  have hcounted := run_counted earlier
  generalize ({} : Link).run earlier = l at h htidy hhalted hcounted
  have hmove := step_move l event
  have hchanges := step_changes htidy.coherent event
  have hlength := (length_of_move hmove hstart).1
  generalize l.step event = l' at hmove hchanges hlength
  rcases queued_of_move hmove with ⟨hqueued, -⟩ | ⟨j, cj, hj, hqueued, -⟩
  · constructor
    · rw [hqueued, ← h.queued]
    · intro k c' hk hrest
      have hc := List.getElem?_eq_getElem (hlength ▸ (List.getElem?_eq_some_iff.mp hk).1)
      obtain ⟨c'', hk', hchange⟩ := hchanges k _ hc
      obtain rfl : c'' = c' := Option.some.inj (hk'.symm.trans hk)
      exact unqueued_of_change hhalted hc hqueued hlength hchange
        (h.rest k _ hc (hqueued ▸ hrest))
  · obtain ⟨cj', -, hchange⟩ := hchanges j cj hj
    obtain ⟨hnext, hlast⟩ := h.next_of_queued (hcounted j cj hj) hj hqueued hchange
    have hmore : l'.queued.length = l.queued.length + 1 := by simp [hqueued]
    constructor
    · rw [hmore, List.range_succ, ← h.queued, hqueued, hnext]
    · intro k c' hk hrest
      have hlt := (List.getElem?_eq_some_iff.mp hk).1
      omega

/-- A call starts after all others are over. -/
theorem inOrder_of_start {l : Link} (hover : ∀ c ∈ l.calls, c.isOver = true)
    (method : String) {argument : Argument} (want : Want) (hline : argument ≠ .unencodable)
    (h : l.InOrder) : (l.step (.start method argument want)).InOrder := by
  simp only [step]
  split
  · exact h
  obtain ⟨c, hcalls, hs⟩ : ∃ c, (l.start method argument want).calls = l.calls ++ [c] ∧
      c.stage = .numbered := by
    cases argument with
    | value v => exact ⟨_, rfl, rfl⟩
    | unencodable => exact absurd rfl hline
  -- What is left of the earlier calls comes after the shutdown.
  have hshut : ∀ k c, l.calls[k]? = some c → l.queued.length ≤ k →
      l.shutDown = true ∧ c.stage ≠ .registered := by
    intro k c hk hrest
    cases h.rest k c hk hrest with
    | never hshut hs => exact ⟨hshut, hs⟩
    | next _ _ hs =>
      have := hover c (List.mem_of_getElem? hk)
      rcases hs with hs | hs <;> simp [Call.isOver, hs] at this
  constructor
  · exact h.queued
  · intro k c' hk hrest
    have hrest : l.queued.length ≤ k := hrest
    rw [hcalls, List.getElem?_append] at hk
    split at hk
    · obtain ⟨hdown, hne⟩ := hshut k c' hk hrest
      exact .never hdown hne
    · obtain ⟨hlast, rfl⟩ : k = l.calls.length ∧ c = c' := by
        have hlt := (List.getElem?_eq_some_iff.mp hk).1
        rw [List.length_singleton] at hlt
        obtain rfl : k = l.calls.length := by omega
        simpa using hk
      cases hdown : l.shutDown with
      | true => exact .never hdown (by simp [hs])
      | false =>
        have hall : l.calls.length ≤ l.queued.length := by
          by_contra hlt
          have hk := List.getElem?_eq_getElem (Nat.lt_of_not_le hlt)
          simp [(hshut _ _ hk (Nat.le_refl _)).1] at hdown
        have hnext : k = l.queued.length := by omega
        exact .next hnext (by simp [hcalls, hlast]) (.inl hs)

/-! ## The ids on the lines -/

def requestId? (line : List UInt8) : Option Nat :=
  (Inbound.requestOf? line).bind fun r => r.id.word?.map UInt64.toNat

theorem requestId?_game (method : String) (g : Identity) (id : UInt64) :
    requestId? (encode (Request.call method g.toValue id).line) = some id.toNat := by
  have hrequest : Inbound.requestOf? (encode (Request.call method g.toValue id).line) =
      some (Request.call method g.toValue id) := by
    simp only [Inbound.requestOf?, decodeLine_encode, Request.parse_game]
    rfl
  have hid : (Request.call method g.toValue id).id.word? = some id := Value.word?_ofUInt64 id
  simp [requestId?, hrequest, hid]

/-- The lines of calls about games, as far as they were queued, are numbered from 0 on. -/
theorem requestIds_of_inOrder (events : List LinkEvent)
    (hlen : (({} : Link).run events).calls.length < UInt64.size)
    (hgames : ∀ c ∈ (({} : Link).run events).calls, ∃ g, c.argument = gameArgument g)
    (h : (({} : Link).run events).InOrder) :
    (lines ((({} : Link).run events).written ++ (({} : Link).run events).unwritten)).map
      requestId? = (List.range (({} : Link).run events).queued.length).map some := by
  have htidy := run_tidy fresh_tidy events
  have hline := fun k c g => line_of_queued events (k := k) (c := c) (g := g)
  generalize ({} : Link).run events = l at hlen hgames h htidy hline
  have hqueued : ∀ k ∈ l.queued, ∃ (c : Call) (g : Identity), l.calls[k]? = some c ∧
      l.lineBytes k = encode (Request.call c.method g.toValue c.id).line := by
    intro k hk
    have hc := List.getElem?_eq_getElem (htidy.queued k hk)
    obtain ⟨g, hg⟩ := hgames _ (List.mem_of_getElem? hc)
    exact ⟨_, g, hc, by rw [lineBytes_eq hc, hline k _ g hc hk hg]⟩
  have hids : ∀ k ∈ l.queued, requestId? (l.lineBytes k) = some k := by
    intro k hk
    obtain ⟨c, g, hc, hbytes⟩ := hqueued k hk
    have hlt := (List.getElem?_eq_some_iff.mp hc).1
    rw [hbytes, requestId?_game, htidy.numbered.ids k c hc,
      UInt64.toNat_ofNat_of_lt' (Nat.lt_trans hlt hlen)]
  have hsplit : lines (l.queued.flatMap l.lineBytes) = l.queued.map l.lineBytes := by
    rw [List.flatMap_def]
    apply lines_of_flatten
    intro line hmem
    obtain ⟨k, hk, rfl⟩ := List.mem_map.mp hmem
    obtain ⟨c, g, -, hbytes⟩ := hqueued k hk
    exact hbytes ▸ Request.isLine_game c.method g c.id
  calc (lines (l.written ++ l.unwritten)).map requestId?
      = (l.queued.map l.lineBytes).map requestId? := by rw [htidy.bytes, hsplit]
    _ = l.queued.map some := by
        rw [List.map_map]
        exact List.map_congr_left hids
    _ = (List.range l.queued.length).map some := by rw [← h.queued]

end Link

end GameRelay.Outbound
