import GameRelay.Host.Run

/-!
# What one step of a run does

A step leaves the stage as it is or takes it on, and asks at most one thing of the
relay. What is said in the log does not matter here.
-/

set_option autoImplicit false

namespace GameRelay.Host.Run

open GameRelay.Inbound GameRelay.Outbound

inductive Does (args : Args) (r : Run) : RunEvent → Run → Prop where
  | stays (event : RunEvent) (r' : Run) : r'.stage = r.stage → r'.caller = r.caller →
      r'.listener.isSome = r.listener.isSome → Does args r event r'
  | went (event : RunEvent) (c : Caller) (next : CallerEvent) :
      (∀ what, next ≠ .ask what) → r.caller = some c →
      Does args r event { r with caller := some (c.step next) }
  | left (event : RunEvent) (exit : Exit) : Does args r event (r.leave exit)
  | dialed : r.stage = .dialing →
      Does args r (.dialed (.ok ())) { r with stage := .binding, caller := some {} }
  | served (event : RunEvent) (r' : Run) : r.stage = .binding →
      args.game = none ∨ r.caller = none → r'.stage = .serving → r'.caller = r.caller →
      r'.listener.isSome = true → Does args r event r'
  | creates (event : RunEvent) (game : String) (c : Caller) (r' : Run) : r.stage = .binding →
      args.game = some game → r.caller = some c → r'.stage = .creating c.tasks.length →
      r'.caller = some (c.step (.ask (.create game args.password))) →
      r'.listener.isSome = true → Does args r event r'
  | created (event : RunEvent) (t : Nat) (accepted : Bool) (r' : Run) : r.stage = .creating t →
      r.accepted? t = some accepted → r'.stage = .serving → r'.caller = r.caller →
      r'.listener = r.listener → Does args r event r'
  | removes (game : String) (c : Caller) (r' : Run) : r.stage = .serving →
      args.game = some game → r.caller = some c → r'.stage = .removing c.tasks.length →
      r'.caller = some (c.step (.ask (.remove game))) → r'.listener = r.listener →
      Does args r .interrupt r'
  | closes (event : RunEvent) (k : Nat) (r' : Run) : r.stage ≠ .dialing → r.stage ≠ .binding →
      r'.stage = .closing k → r'.caller = r.caller →
      r'.listener.isSome = r.listener.isSome → Does args r event r'

section
variable {args : Args} {r r' : Run} {event : RunEvent}

theorem does_self (args : Args) (r : Run) (event : RunEvent) : Does args r event r :=
  .stays event r rfl rfl rfl

/-- What is said does not matter. -/
theorem does_close (hdialing : r.stage ≠ .dialing) (hbinding : r.stage ≠ .binding)
    (hstage : r'.stage = r.stage) (hcaller : r'.caller = r.caller)
    (hlistener : r'.listener = r.listener) : Does args r event r'.close := by
  unfold close
  split
  · exact .stays event r' hstage hcaller (by rw [hlistener])
  · rename_i l hl
    exact .closes event _ _ hdialing hbinding rfl hcaller (by simp [← hlistener, hl])

theorem does_bound (hstage : r.stage = .binding) (result : Except RelayError String) :
    Does args r event (r.bound args result) := by
  cases result with
  | error error => exact .left event _
  | ok address =>
    simp only [bound]
    split
    · rename_i game hgame
      unfold ask
      split
      · rename_i hnone
        exact .served event _ hstage (.inr hnone) rfl rfl rfl
      · rename_i c hc
        exact .creates event game c _ hstage hgame hc rfl rfl rfl
    · rename_i hgame
      exact .served event _ hstage (.inl hgame) rfl rfl rfl

theorem does_interrupted (hstage : r.stage = .serving) :
    Does args r .interrupt (r.interrupted args) := by
  unfold interrupted
  simp only
  split
  · rename_i game hgame
    unfold ask
    split
    · exact .stays _ _ rfl rfl rfl
    · rename_i c hc
      exact .removes game c _ hstage hgame hc rfl rfl rfl
  · exact does_close (by simp [hstage]) (by simp [hstage]) rfl rfl rfl

theorem does_advance : Does args r event (r.advance args) := by
  unfold advance
  split
  · rename_i t hstage
    split
    · rename_i accepted haccepted
      unfold created
      simp only
      split <;> exact .created event t accepted _ hstage haccepted rfl rfl rfl
    · exact does_self args r event
  · rename_i t hstage
    split
    · unfold removed
      simp only
      split <;> exact does_close (by simp [hstage]) (by simp [hstage]) rfl rfl rfl
    · exact does_self args r event
  · split
    · exact .left event _
    · exact does_self args r event
  · exact does_self args r event

theorem does_outbound (more : CallerEvent) : Does args r event (r.outbound more) := by
  unfold outbound
  split
  · exact does_self args r event
  · exact does_self args r event
  · exact does_self args r event
  · rename_i c hask _ hc
    exact .went event c _ (fun what h => hask what h) hc

theorem does_inbound (more : ListenerEvent) :
    Does args r event (r.inbound more) := by
  unfold inbound
  split
  · exact does_self args r event
  · exact does_self args r event
  · exact does_self args r event
  · exact does_self args r event
  · rename_i l _ _ _ hl
    exact .stays event _ rfl rfl (by simp [hl])

theorem step_does (args : Args) (r : Run) (event : RunEvent) :
    Does args r event (r.step args event) := by
  unfold step
  split
  · exact does_self args r _
  · rename_i result hstage
    cases result with
    | error error => exact .left _ _
    | ok => exact .dialed hstage
  · rename_i result hstage
    exact does_bound hstage result
  · rename_i hstage
    exact does_interrupted hstage
  · exact .left _ _
  · exact does_self args r _
  · exact does_self args r _
  · exact .left _ _
  · exact does_advance
  · exact does_outbound _
  · exact does_inbound _
  · exact does_self args r _

end

end GameRelay.Host.Run
