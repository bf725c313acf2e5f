import GameRelay.Proofs.Inbound.Cut
import GameRelay.Proofs.Inbound.Independence

/-!
# A closed door

An attempt to close that took the handle returns only once the socket is closed. One
that finds the handle gone returns at once, so that what its return says depends on
the attempt that has it. A closed socket takes in no connection any more, and the
connections that were taken in before do not notice.
-/

set_option autoImplicit false

namespace GameRelay.Inbound

open GameRelay.Frame GameRelay.Json GameRelay.Text

namespace Closer

def hasHandle : Closer → Bool
  | .holding | .waiting => true
  | .started | .returned | .abandoned => false

end Closer

namespace Door

/-! ## One step of the door -/

inductive Move (d d' : Door) : Prop where
  | still : d'.handle = d.handle → d'.isOpen = d.isOpen → d'.closers = d.closers → Move d d'
  | came : d'.handle = d.handle → d'.isOpen = d.isOpen →
      d'.closers = d.closers ++ [Closer.started] → Move d d'
  | took (k : Nat) : d.closers[k]? = some Closer.started → d'.handle = false →
      d'.isOpen = d.isOpen → d'.closers = d.closers.set k Closer.holding → Move d d'
  | missed (k : Nat) : d.closers[k]? = some Closer.started → d.handle = false → d'.handle = false →
      d'.isOpen = d.isOpen → d'.closers = d.closers.set k Closer.returned → Move d d'
  | asked (k : Nat) : d.closers[k]? = some Closer.holding → d'.handle = d.handle →
      d'.isOpen = d.isOpen → d'.closers = d.closers.set k Closer.waiting → Move d d'
  | left (k : Nat) : d.closers[k]? = some Closer.waiting → d.isOpen = false → d'.handle = d.handle →
      d'.isOpen = false → d'.closers = d.closers.set k Closer.returned → Move d d'
  | gaveUp (k : Nat) : d.closers[k]? = some Closer.started ∨ d.closers[k]? = some Closer.waiting →
      d'.handle = d.handle → d'.isOpen = d.isOpen → d'.closers = d.closers.set k Closer.abandoned →
      Move d d'
  | shut : d'.handle = d.handle → d'.isOpen = false → d'.closers = d.closers → Move d d'

theorem advance_move (d : Door) (k : Nat) : Move d (d.advance k) := by
  unfold advance
  split
  · rename_i hk
    split
    · exact .took k hk rfl rfl rfl
    · rename_i hhandle
      have hhandle : d.handle = false := by simpa using hhandle
      exact .missed k hk hhandle hhandle rfl rfl
  · rename_i hk
    exact .asked k hk rfl rfl rfl
  · rename_i hk
    split
    · exact .still rfl rfl rfl
    · rename_i hopen
      have hopen : d.isOpen = false := by simpa using hopen
      exact .left k hk hopen rfl hopen rfl
  · exact .still rfl rfl rfl

/-- Every step but the end of the listener itself. -/
theorem step_move (d : Door) {event : DoorEvent} (h : event ≠ .drop) : Move d (d.step event) := by
  cases event with
  | drop => exact absurd rfl h
  | rested => exact .still rfl rfl rfl
  | close => exact .came rfl rfl rfl
  | advance k => exact advance_move d k
  | abandon k =>
    simp only [step, abandon]
    split
    · rename_i hk
      exact .gaveUp k (.inl hk) rfl rfl rfl
    · rename_i hk
      exact .gaveUp k (.inr hk) rfl rfl rfl
    · exact .still rfl rfl rfl
  | stopped =>
    simp only [step]
    split
    · exact .shut rfl rfl rfl
    · exact .still rfl rfl rfl

theorem rest_move (d : Door) : Move d d.rest := by
  unfold rest
  split <;> exact .still rfl rfl rfl

/-! ## Who has the handle -/

structure Sound (d : Door) : Prop where
  gone : ∀ k : Nat, d.closers[k]? = some Closer.returned ∨ d.closers[k]? = some Closer.holding ∨
    d.closers[k]? = some Closer.waiting → d.handle = false
  taken : d.handle = false → d.isOpen = true → ∃ (k : Nat) (closer : Closer),
    d.closers[k]? = some closer ∧ (closer.hasHandle = true ∨ closer = Closer.abandoned)

theorem fresh_sound : ({} : Door).Sound where
  gone k hk := by simp at hk
  taken hhandle := by simp at hhandle

section
variable {d d' : Door}

theorem closers_set {k : Nat} {was now : Closer} (hk : d.closers[k]? = some was)
    (hset : d'.closers = d.closers.set k now) :
    d'.closers[k]? = some now ∧ ∀ j, j ≠ k → d'.closers[j]? = d.closers[j]? := by
  have hlt := (List.getElem?_eq_some_iff.mp hk).1
  constructor
  · simp [hset, hlt]
  · intro j hj
    rw [hset, List.getElem?_set_ne (Ne.symm hj)]

/-- Another attempt keeps the handle. -/
theorem Sound.kept (h : d.Sound) {k : Nat} {was now : Closer} (hk : d.closers[k]? = some was)
    (hwas : was = .started) (hset : d'.closers = d.closers.set k now) (hhandle : d.handle = false)
    (hopen : d.isOpen = true) :
    ∃ (j : Nat) (closer : Closer), d'.closers[j]? = some closer ∧
      (closer.hasHandle = true ∨ closer = Closer.abandoned) := by
  obtain ⟨j, closer, hj, hholds⟩ := h.taken hhandle hopen
  have hjk : j ≠ k := by
    rintro rfl
    obtain rfl : was = closer := Option.some.inj (hk.symm.trans hj)
    simp [hwas, Closer.hasHandle] at hholds
  exact ⟨j, closer, ((closers_set hk hset).2 j hjk).trans hj, hholds⟩

theorem Sound.gone_of_set (h : d.Sound) {k : Nat} {was now : Closer} (hk : d.closers[k]? = some was)
    (hset : d'.closers = d.closers.set k now) (hhandle : d'.handle = d.handle)
    (hnow : now = .returned ∨ now = .holding ∨ now = .waiting → d.handle = false) :
    ∀ j : Nat, d'.closers[j]? = some Closer.returned ∨ d'.closers[j]? = some Closer.holding ∨
      d'.closers[j]? = some Closer.waiting → d'.handle = false := by
  obtain ⟨hself, hothers⟩ := closers_set hk hset
  intro j hj
  rw [hhandle]
  by_cases hjk : j = k
  · subst hjk
    rw [hself] at hj
    exact hnow (by simpa using hj)
  · rw [hothers j hjk] at hj
    exact h.gone j hj

theorem Sound.of_move (h : d.Sound) (hmove : Move d d') : d'.Sound := by
  cases hmove with
  | still hhandle hopen hclosers =>
    exact ⟨by rw [hclosers, hhandle]; exact h.gone, by rw [hclosers, hhandle, hopen]; exact h.taken⟩
  | shut hhandle hopen hclosers =>
    exact ⟨by rw [hclosers, hhandle]; exact h.gone, fun _ ho => by simp [hopen] at ho⟩
  | came hhandle hopen hclosers =>
    constructor
    · intro k hk
      rw [hclosers, List.getElem?_append] at hk
      split at hk
      · exact hhandle.trans (h.gone k hk)
      · rw [List.getElem?_singleton] at hk
        split at hk <;> simp at hk
    · rw [hhandle, hopen]
      intro hgone ho
      obtain ⟨k, closer, hk, hholds⟩ := h.taken hgone ho
      have hlt := (List.getElem?_eq_some_iff.mp hk).1
      exact ⟨k, closer, by rw [hclosers, List.getElem?_append_left hlt, hk], hholds⟩
  | took k hk hhandle hopen hset =>
    exact ⟨fun _ _ => hhandle, fun _ _ => ⟨k, .holding, (closers_set hk hset).1, .inl rfl⟩⟩
  | missed k hk hgone hhandle hopen hset =>
    refine ⟨fun _ _ => hhandle, fun _ ho => ?_⟩
    exact h.kept hk rfl hset hgone (hopen ▸ ho)
  | asked k hk hhandle hopen hset =>
    have hgone := h.gone k (.inr (.inl hk))
    exact ⟨h.gone_of_set hk hset hhandle fun _ => hgone,
      fun _ _ => ⟨k, .waiting, (closers_set hk hset).1, .inl rfl⟩⟩
  | left k hk hshut hhandle hopen hset =>
    have hgone := h.gone k (.inr (.inr hk))
    exact ⟨h.gone_of_set hk hset hhandle fun _ => hgone, fun _ ho => by simp [hopen] at ho⟩
  | gaveUp k hk hhandle hopen hset =>
    have hset' : ∃ was, d.closers[k]? = some was := hk.elim (fun h => ⟨_, h⟩) fun h => ⟨_, h⟩
    obtain ⟨was, hwas⟩ := hset'
    exact ⟨h.gone_of_set hwas hset hhandle (by simp),
      fun _ _ => ⟨k, .abandoned, (closers_set hwas hset).1, .inr rfl⟩⟩

theorem open_of_move (hmove : Move d d') (h : d.isOpen = false) : d'.isOpen = false := by
  cases hmove with
  | shut _ hopen | left _ _ _ _ hopen => exact hopen
  | still _ hopen | came _ hopen | took _ _ _ hopen | missed _ _ _ _ hopen | asked _ _ _ hopen
  | gaveUp _ _ _ hopen => exact hopen.trans h

/-! ## Attempts that have returned -/

/-- Closing is done: an attempt has returned, and none that may have the handle is under way or
was given up. -/
structure Closed (d : Door) : Prop where
  returned : ∃ k : Nat, d.closers[k]? = some Closer.returned
  none : ∀ closer ∈ d.closers, closer.hasHandle = false ∧ closer ≠ Closer.abandoned

theorem Closed.shut (h : d.Closed) (hsound : d.Sound) : d.isOpen = false := by
  by_contra hopen
  obtain ⟨k, hk⟩ := h.returned
  obtain ⟨j, closer, hj, hholds⟩ := hsound.taken (hsound.gone k (.inl hk)) (by simpa using hopen)
  obtain ⟨hfree, hkept⟩ := h.none closer (List.mem_of_getElem? hj)
  simp [hfree, hkept] at hholds

/-- One attempt, with the runtime's step in between. -/
example : (({} : Door).run [.close, .advance 0, .advance 0, .stopped, .advance 0]).isOpen = false ∧
    (({} : Door).run [.close, .advance 0, .advance 0, .stopped, .advance 0]).closers =
      [Closer.returned] := by
  decide

def Keeps (d : Door) (k : Nat) : Prop :=
  ∃ closer : Closer, d.closers[k]? = some closer ∧ (closer.hasHandle = true ∨
    closer = Closer.abandoned ∨ (closer = Closer.returned ∧ d.isOpen = false))

theorem Keeps.of_move {k : Nat} (h : d.Keeps k) (hmove : Move d d') : d'.Keeps k := by
  obtain ⟨closer, hk, hkeeps⟩ := h
  have hstays : d'.closers[k]? = d.closers[k]? → d'.Keeps k := by
    intro hsame
    refine ⟨closer, hsame.trans hk, ?_⟩
    rcases hkeeps with hholds | hgaveUp | ⟨hreturned, hopen⟩
    · exact .inl hholds
    · exact .inr (.inl hgaveUp)
    · exact .inr (.inr ⟨hreturned, open_of_move hmove hopen⟩)
  -- An attempt that has not begun does not have the handle.
  have hstarted : ∀ j, d.closers[j]? = some Closer.started → k ≠ j := by
    rintro j hj rfl
    obtain rfl : closer = .started := Option.some.inj (hk.symm.trans hj)
    simp [Closer.hasHandle] at hkeeps
  cases hmove with
  | still _ _ hclosers | shut _ _ hclosers => exact hstays (by rw [hclosers])
  | came _ _ hclosers =>
    have hlt := (List.getElem?_eq_some_iff.mp hk).1
    exact hstays (by rw [hclosers, List.getElem?_append_left hlt])
  | took j hj _ _ hset | missed j hj _ _ _ hset =>
    exact hstays ((closers_set hj hset).2 k (hstarted j hj))
  | asked j hj _ _ hset =>
    by_cases hkj : k = j
    · subst hkj
      exact ⟨.waiting, (closers_set hj hset).1, .inl rfl⟩
    · exact hstays ((closers_set hj hset).2 k hkj)
  | left j hj _ _ hopen hset =>
    by_cases hkj : k = j
    · subst hkj
      exact ⟨.returned, (closers_set hj hset).1, .inr (.inr ⟨rfl, hopen⟩)⟩
    · exact hstays ((closers_set hj hset).2 k hkj)
  | gaveUp j hj _ _ hset =>
    obtain ⟨was, hwas⟩ : ∃ was, d.closers[j]? = some was :=
      hj.elim (fun h => ⟨_, h⟩) fun h => ⟨_, h⟩
    by_cases hkj : k = j
    · subst hkj
      exact ⟨.abandoned, (closers_set hwas hset).1, .inr (.inl rfl)⟩
    · exact hstays ((closers_set hwas hset).2 k hkj)

end

end Door

/-! ## The listener behind the door -/

namespace Listener

variable {σ : Type} {consumer : Consumer σ} {l : Listener σ}

def Stays (events : List ListenerEvent) : Prop := .door .drop ∉ events

@[simp] theorem onConnection_door (l : Listener σ) (c : Nat)
    (f : Serving → Serving × List Report) : (l.onConnection c f).door = l.door := by
  unfold onConnection
  split <;> rfl

@[simp] theorem handle_door (l : Listener σ) (c : Nat) :
    (l.handle consumer c).door = l.door := by
  unfold handle
  split
  · rfl
  · exact onConnection_door _ c _

/-- What a step of the listener is to its door. -/
theorem step_door (consumer : Consumer σ) (l : Listener σ) (event : ListenerEvent) :
    (l.step consumer event).door = l.door ∨
      (l.step consumer event).door = l.door.rest ∨
      ∃ step, event = .door step ∧ (l.step consumer event).door = l.door.step step := by
  cases event with
  | accept | acceptFailed error =>
    simp only [step]
    split
    · simp
    · exact .inl rfl
  | door event => exact .inr (.inr ⟨event, rfl, rfl⟩)
  | arrive | finish | read | handle | write | writeFailed => exact .inl (by simp [step])

theorem door_move (consumer : Consumer σ) (l : Listener σ) {event : ListenerEvent}
    (h : event ≠ .door .drop) :
    Door.Move l.door (l.step consumer event).door := by
  rcases step_door consumer l event with hd | hd | ⟨step, rfl, hd⟩
  · exact .still (by rw [hd]) (by rw [hd]) (by rw [hd])
  · exact hd ▸ l.door.rest_move
  · exact hd ▸ l.door.step_move fun hdrop => h (hdrop ▸ rfl)

/-- What every step of the door keeps. -/
theorem run_door {P : Door → Prop} (hP : ∀ d d', Door.Move d d' → P d → P d')
    (events : List ListenerEvent) (hstays : Stays events) (h : P l.door) :
    P (l.run consumer events).door := by
  induction events generalizing l with
  | nil => exact h
  | cons event rest ih =>
    apply ih
    · exact fun he => hstays (List.mem_cons_of_mem _ he)
    · exact hP _ _ (door_move consumer l fun he => hstays (he ▸ List.mem_cons_self)) h

theorem run_sound (start : σ) (events : List ListenerEvent) (hstays : Stays events) :
    ((opened start).run consumer events).door.Sound :=
  run_door (fun _ _ hmove h => h.of_move hmove) events hstays Door.fresh_sound

/-- An attempt that had the handle has returned: the socket is closed. -/
theorem shut_of_returned {k : Nat} {closer : Closer} (hk : l.door.closers[k]? = some closer)
    (hholds : closer.hasHandle = true) (events : List ListenerEvent) (hstays : Stays events)
    (hreturned : (l.run consumer events).door.closers[k]? = some Closer.returned) :
    (l.run consumer events).door.isOpen = false := by
  have hkeeps : (l.run consumer events).door.Keeps k :=
    run_door (P := fun d => d.Keeps k) (fun _ _ hmove h => h.of_move hmove) events hstays
      ⟨closer, hk, .inl hholds⟩
  obtain ⟨now, hnow, hcase⟩ := hkeeps
  obtain rfl := Option.some.inj (hnow.symm.trans hreturned)
  simpa [Closer.hasHandle] using hcase

theorem step_shut (consumer : Consumer σ) (h : l.door.isOpen = false) (event : ListenerEvent) :
    (l.step consumer event).door.isOpen = false := by
  rcases step_door consumer l event with hd | hd | ⟨step, -, hd⟩
  · rw [hd, h]
  · rw [hd]
    exact Door.open_of_move l.door.rest_move h
  · rw [hd]
    exact l.door.step_isOpen_false step h

/-- Behind a closed door no connection is taken in any more, even if the listener goes away. -/
theorem run_shut (h : l.door.isOpen = false) (events : List ListenerEvent) :
    (l.run consumer events).door.isOpen = false ∧
      (l.run consumer events).connections.length = l.connections.length := by
  induction events generalizing l with
  | nil => exact ⟨h, rfl⟩
  | cons event rest ih =>
    obtain ⟨hopen, hlength⟩ := ih (step_shut consumer h event)
    have hnone : l.door.accepts = false := by simp [Door.accepts, h]
    refine ⟨hopen, hlength.trans ?_⟩
    rw [step_length, hnone]
    simp

/-! ## Connections behind a closed door -/

structure SameService (l l' : Listener σ) : Prop where
  connections : l'.connections = l.connections
  state : l'.state = l.state
  heard : l'.heard = l.heard

theorem SameService.onConnection {l l' : Listener σ} (h : SameService l l') (c : Nat)
    (f : Serving → Serving × List Report) :
    SameService (l.onConnection c f) (l'.onConnection c f) := by
  unfold Listener.onConnection
  rw [h.connections]
  split
  · exact h
  · exact ⟨rfl, h.state, h.heard⟩

theorem SameService.handle {l l' : Listener σ} (h : SameService l l') (c : Nat) :
    SameService (l.handle consumer c) (l'.handle consumer c) := by
  unfold Listener.handle
  rw [h.connections]
  split
  · exact h
  · rename_i notice hnotice
    rw [h.state]
    obtain ⟨state, reaction⟩ := consumer.handle l.state notice
    refine SameService.onConnection ?_ c _
    exact ⟨rfl, rfl, congrArg (· ++ [(c, notice)]) h.heard⟩

/-- Any step but an accept goes the same way whatever the doors are. -/
theorem SameService.step {l l' : Listener σ} (h : SameService l l') {event : ListenerEvent}
    (haccept : event ≠ .accept) :
    SameService (l.step consumer event) (l'.step consumer event) := by
  cases event with
  | accept => exact absurd rfl haccept
  | acceptFailed error =>
    simp only [Listener.step]
    split <;> split <;> exact ⟨h.connections, h.state, h.heard⟩
  | arrive c bytes => exact h.onConnection c _
  | finish c why => exact h.onConnection c _
  | read c => exact h.onConnection c _
  | handle c => exact h.handle c
  | write c => exact h.onConnection c _
  | writeFailed c error => exact h.onConnection c _
  | door event => exact ⟨h.connections, h.state, h.heard⟩

/-- The connections behind a closed door go on as they would behind an open one to which nobody
comes. -/
theorem sameService_of_shut {l l' : Listener σ} (h : SameService l l')
    (hshut : l.door.isOpen = false) (events : List ListenerEvent) :
    SameService (l.run consumer events)
      (l'.run consumer (events.filter fun event => event != .accept)) := by
  induction events generalizing l l' with
  | nil => exact h
  | cons event rest ih =>
    have hstays := step_shut consumer hshut event
    by_cases haccept : event = .accept
    · subst haccept
      have hnone : l.step consumer .accept = l := by simp [step, Door.accepts, hshut]
      rw [run, hnone]
      exact ih h hshut
    · rw [run, List.filter_cons_of_pos (by simpa using haccept), run]
      exact ih (h.step haccept) hstays

end Listener

end GameRelay.Inbound
