import GameRelay.Proofs.Caller.Underway
import GameRelay.Proofs.Link.Ending

/-!
# One call at a time

A caller starts a call on a link only after the others there are over. So only the
last call can be under way, no call is ever pushed out of the table, and each is
handed what decides it, however many calls there were before.
-/

set_option autoImplicit false

namespace GameRelay.Outbound

open GameRelay.Frame GameRelay.Json

namespace Link

structure Orderly (l : Link) : Prop where
  last : ∀ k c, l.calls[k]? = some c → c.isOver = false → k + 1 = l.calls.length
  delivered : ∀ k c, l.calls[k]? = some c → (l.slot k c).Delivered l

theorem fresh_orderly : ({} : Link).Orderly :=
  ⟨fun _ _ hk => by simp at hk, fun _ _ hk => by simp at hk⟩

/-- A call that is under way was so before, or has just started. -/
theorem last_of_step {l : Link} (h : l.Coherent) {event : LinkEvent}
    (hfree : (∀ method argument want, event ≠ .start method argument want) ∨
      ∀ c ∈ l.calls, c.isOver = true)
    (hlast : ∀ k c, l.calls[k]? = some c → c.isOver = false → k + 1 = l.calls.length) :
    ∀ k c, (l.step event).calls[k]? = some c → c.isOver = false →
      k + 1 = (l.step event).calls.length := by
  intro k c' hk' hgoing'
  rcases call_of_step h event hk' with ⟨c, hk, hchange⟩ | ⟨rfl, hstarted⟩
  · have hgoing : c.isOver = false := by
      by_contra hover
      have hover : c.isOver = true := by simpa using hover
      have hover' : c'.isOver = true := over_of_change hchange hover
      simp [hgoing'] at hover'
    rcases hfree with hstart | hover
    · rw [(length_of_move (step_move l event) hstart).1]
      exact hlast k c hk hgoing
    · simp [hover c (List.mem_of_getElem? hk)] at hgoing
  · simp [hstarted.calls]

theorem orderly_of_step (earlier : List LinkEvent) {event : LinkEvent}
    (hfree : (∀ method argument want, event ≠ .start method argument want) ∨
      ∀ c ∈ (({} : Link).run earlier).calls, c.isOver = true)
    (ho : (({} : Link).run earlier).Orderly) : ((({} : Link).run earlier).step event).Orderly := by
  have h := run_tidy fresh_tidy earlier
  have hcounted := run_counted earlier
  generalize ({} : Link).run earlier = l at h hcounted hfree ho
  refine ⟨last_of_step h.coherent hfree ho.last, ?_⟩
  intro k c' hk'
  rcases call_of_step h.coherent event hk' with ⟨c, hk, -⟩ | ⟨rfl, hstarted⟩
  · apply delivered_of_step h hk hk' (hcounted k c hk) (ho.delivered k c hk)
    intro hgoing j _ cj hj hgoing' _
    have hlast := ho.last k c hk hgoing
    have hlast' := ho.last j cj hj hgoing'
    omega
  · rw [slot_of_started h hstarted]
    exact delivered_of_started hstarted

end Link

namespace Caller

theorem step_orderly {c : Caller} (h : c.Guarded) (ho : ∀ l ∈ c.links, l.Orderly)
    (event : CallerEvent) : ∀ l ∈ (c.step event).links, l.Orderly := by
  apply step_links h Link.fresh_orderly _ ho event
  intro earlier event hallowed hbefore
  cases hallowed with
  | goesOn hstart => exact Link.orderly_of_step earlier (.inl hstart) hbefore
  | starts _ _ _ _ hover => exact Link.orderly_of_step earlier (.inr hover) hbefore

theorem run_orderly (events : List CallerEvent) {c : Caller} (h : c.Guarded)
    (ho : ∀ l ∈ c.links, l.Orderly) : ∀ l ∈ (c.run events).links, l.Orderly := by
  induction events generalizing c with
  | nil => exact ho
  | cons event rest ih => exact ih (step_guarded h event) (step_orderly h ho event)

/-- Every link of a caller, at any moment. -/
theorem orderly_of_run (events : List CallerEvent) :
    ∀ l ∈ (({} : Caller).run events).links, l.Orderly := by
  apply run_orderly events fresh_guarded
  intro l hl
  exact List.mem_singleton.mp hl ▸ Link.fresh_orderly

end Caller

end GameRelay.Outbound
