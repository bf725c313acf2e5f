import GameRelay.Proofs.Inbound.Closing
import GameRelay.Proofs.Inbound.Service

/-!
# What the return of an attempt to close says

Attempts to close may overlap, and each may be given up. The one that takes the handle
returns only once the socket is closed. Another one finds the handle gone and returns at
once, and then the socket may still be open: for as long as the first needs to ask the
accepting task to stop and the runtime to stop it, and for nothing else.
-/

set_option autoImplicit false

namespace GameRelay.Inbound

namespace Door

variable {d : Door}

/-! ## Closing is under way -/

def Underway (d : Door) : Prop :=
  d.handle = false → d.stopping = true ∨ ∃ k : Nat, d.closers[k]? = some Closer.holding

theorem holding_set {k : Nat} {was : Closer} (hk : d.closers[k]? = some was) (hwas : was ≠ .holding)
    (now : Closer) (h : ∃ j : Nat, d.closers[j]? = some Closer.holding) :
    ∃ j : Nat, (d.closers.set k now)[j]? = some Closer.holding := by
  obtain ⟨j, hj⟩ := h
  have hjk : k ≠ j := by
    rintro rfl
    exact hwas (Option.some.inj (hk.symm.trans hj))
  exact ⟨j, (List.getElem?_set_ne hjk).trans hj⟩

/-- The step is no attempt's that is about to ask. -/
theorem Underway.setCloser (h : d.Underway) {k : Nat} {was : Closer} (hk : d.closers[k]? = some was)
    (hwas : was ≠ .holding) (now : Closer) :
    (d.setCloser k now).Underway := by
  intro hhandle
  rcases h hhandle with hstopping | hholding
  · exact .inl hstopping
  · exact .inr (holding_set hk hwas now hholding)

theorem Underway.advance (h : d.Underway) (k : Nat) : (d.advance k).Underway := by
  unfold Door.advance
  split
  · rename_i hk
    split
    · have hlt := (List.getElem?_eq_some_iff.mp hk).1
      exact fun _ => .inr ⟨k, List.getElem?_set_self hlt⟩
    · exact h.setCloser hk (by decide) .returned
  · exact fun _ => .inl rfl
  · rename_i hk
    split
    · exact h
    · exact h.setCloser hk (by decide) .returned
  · exact h

theorem Underway.step (h : d.Underway) (event : DoorEvent) : (d.step event).Underway := by
  cases event with
  | rested => exact h
  | close =>
    intro hhandle
    rcases h hhandle with hstopping | ⟨k, hk⟩
    · exact .inl hstopping
    · have hlt := (List.getElem?_eq_some_iff.mp hk).1
      exact .inr ⟨k, (List.getElem?_append_left hlt).trans hk⟩
  | advance k => exact h.advance k
  | abandon k =>
    simp only [Door.step, abandon]
    split
    · rename_i hk
      exact h.setCloser hk (by decide) .abandoned
    · rename_i hk
      exact h.setCloser hk (by decide) .abandoned
    · exact h
  | drop =>
    simp only [Door.step]
    split
    · exact fun _ => .inl rfl
    · exact h
  | stopped =>
    simp only [Door.step]
    split
    · exact h
    · exact h

theorem Underway.rest (h : d.Underway) : d.rest.Underway := by
  unfold Door.rest
  split
  · exact h
  · exact h

def Awaited (d : Door) (event : DoorEvent) : Prop :=
  event = .stopped ∨ ∃ k : Nat, d.closers[k]? = some Closer.holding ∧ event = .advance k

/-- Two such steps at most, and the socket is closed. -/
theorem Underway.shut (h : d.Underway) (hgone : d.handle = false) :
    ∃ steps : List DoorEvent, steps.length ≤ 2 ∧ (∀ event ∈ steps, d.Awaited event) ∧
      (d.run steps).isOpen = false := by
  rcases h hgone with hstopping | ⟨k, hk⟩
  · refine ⟨[.stopped], by simp, by simp [Awaited], ?_⟩
    simp [run, Door.step, hstopping]
  · refine ⟨[.advance k, .stopped], by simp, by simp [Awaited, hk], ?_⟩
    simp [run, Door.step, Door.advance, hk]

end Door

/-! ## The listener behind the door -/

namespace Listener

variable {σ : Type} {consumer : Consumer σ} {l : Listener σ}

theorem run_underway (h : l.door.Underway) (events : List ListenerEvent) :
    (l.run consumer events).door.Underway := by
  induction events generalizing l with
  | nil => exact h
  | cons event rest ih =>
    apply ih
    rcases step_door consumer l event with hd | hd | ⟨step, -, hd⟩
    · rw [hd]
      exact h
    · rw [hd]
      exact h.rest
    · rw [hd]
      exact h.step step

theorem run_doorSteps (consumer : Consumer σ) (l : Listener σ) (steps : List DoorEvent) :
    l.run consumer (steps.map .door) = { l with door := l.door.run steps } := by
  induction steps generalizing l with
  | nil => rfl
  | cons event rest ih => exact ih _

/-! ## Who took the handle -/

def Took (consumer : Consumer σ) (l : Listener σ) (events : List ListenerEvent) (k : Nat) : Prop :=
  ∃ before after, events = before ++ after ∧
    (l.run consumer before).door.closers[k]? = some Closer.holding

theorem took_of_gone (h : l.door.handle = true) (events : List ListenerEvent)
    (hstays : Stays events) (hgone : (l.run consumer events).door.handle = false) :
    ∃ k, Took consumer l events k := by
  induction events generalizing l with
  | nil => cases h.symm.trans hgone
  | cons event rest ih =>
    have hevent : event ≠ .door .drop := fun he => hstays (he ▸ List.mem_cons_self)
    have hrest : Stays rest := fun he => hstays (List.mem_cons_of_mem _ he)
    by_cases hnext : (l.step consumer event).door.handle = true
    · obtain ⟨k, before, after, rfl, hk⟩ := ih hnext hrest hgone
      exact ⟨k, event :: before, after, rfl, hk⟩
    · -- Of all the steps, only taking the handle makes it disappear.
      cases door_move consumer l hevent with
      | took k hk _ _ hset => exact ⟨k, [event], rest, rfl, (Door.closers_set hk hset).1⟩
      | missed _ _ hmissing => cases h.symm.trans hmissing
      | still hhandle | came hhandle | asked _ _ hhandle | left _ _ _ hhandle
      | gaveUp _ _ hhandle | shut hhandle => exact absurd (hhandle.trans h) hnext

theorem Took.keeps {events : List ListenerEvent} {k : Nat} (h : Took consumer l events k)
    (hstays : Stays events) : (l.run consumer events).door.Keeps k := by
  obtain ⟨before, after, rfl, hk⟩ := h
  have hafter : Stays after := fun he => hstays (List.mem_append_right _ he)
  rw [run_append]
  exact run_door (P := fun d => d.Keeps k) (fun _ _ hmove hkeeps => hkeeps.of_move hmove) after
    hafter ⟨.holding, hk, .inl rfl⟩

theorem Took.shut {events : List ListenerEvent} {k : Nat} (h : Took consumer l events k)
    (hstays : Stays events) (hk : (l.run consumer events).door.closers[k]? = some Closer.returned) :
    (l.run consumer events).door.isOpen = false := by
  obtain ⟨closer, hcloser, hkeeps⟩ := h.keeps hstays
  obtain rfl := Option.some.inj (hcloser.symm.trans hk)
  simpa [Closer.hasHandle] using hkeeps

/-- Where the handle is gone and the socket is open, whoever took the handle has not returned. -/
theorem overtaken_of_gone (h : l.door.handle = true) {events : List ListenerEvent}
    (hstays : Stays events) (hgone : (l.run consumer events).door.handle = false)
    (hopen : (l.run consumer events).door.isOpen = true) :
    ∃ (j : Nat) (closer : Closer), Took consumer l events j ∧
      (l.run consumer events).door.closers[j]? = some closer ∧
      (closer.hasHandle = true ∨ closer = Closer.abandoned) := by
  obtain ⟨j, htook⟩ := took_of_gone h events hstays hgone
  obtain ⟨closer, hj, hkeeps⟩ := htook.keeps hstays
  refine ⟨j, closer, htook, hj, ?_⟩
  rcases hkeeps with hholds | hgaveUp | ⟨-, hshut⟩
  · exact .inl hholds
  · exact .inr hgaveUp
  · cases hopen.symm.trans hshut

/-! ## What is true of every run -/

/-- What the return of an attempt to close says: `l` is what these events have made of a
listener that was opened with a consumer at `start`. -/
structure ClosesBehind (consumer : Consumer σ) (start : σ) (events : List ListenerEvent)
    (l : Listener σ) : Prop where
  /-- Whoever asks is told so. -/
  told : ∀ k : Nat, l.door.closers[k]? = some Closer.returned → l.door.isClosed = true
  /-- The socket is closed when the attempt that took the handle returns, whatever the others
  do. -/
  taker : ∀ k : Nat, Took consumer (opened start) events k →
    l.door.closers[k]? = some Closer.returned → l.door.isOpen = false
  /-- Any other attempt leaves it open only behind the one that took the handle, if that has not
  returned or was given up. -/
  overtaken : ∀ k : Nat, l.door.closers[k]? = some Closer.returned → l.door.isOpen = true →
    ∃ (j : Nat) (closer : Closer), j ≠ k ∧ Took consumer (opened start) events j ∧
      l.door.closers[j]? = some closer ∧
      (closer.hasHandle = true ∨ closer = Closer.abandoned)
  /-- Then closing waits for nobody but that attempt and the runtime. -/
  soon : ∀ k : Nat, l.door.closers[k]? = some Closer.returned →
    ∃ steps : List DoorEvent, steps.length ≤ 2 ∧ (∀ event ∈ steps, l.door.Awaited event) ∧
      (l.run consumer (steps.map .door)).door.isOpen = false
  /-- Once every attempt that took the handle has returned, the socket is closed behind all that
  have returned. -/
  settled : ∀ k : Nat, l.door.closers[k]? = some Closer.returned →
    (∀ j : Nat, Took consumer (opened start) events j →
      l.door.closers[j]? = some Closer.returned) → l.door.isOpen = false
  /-- A closed socket takes in no connection any more, and those that are there are served as
  behind an open one to which nobody comes. -/
  refuses : l.door.isOpen = false → ∀ more : List ListenerEvent,
    (l.run consumer more).door.isOpen = false ∧
    (l.run consumer more).connections.length = l.connections.length ∧
    SameService (l.run consumer more)
      (Listener.run consumer { l with door := {} }
        (more.filter fun event => event != .accept))
  /-- A connection whose stream has ended comes to its end by steps of its own. -/
  serves : ∀ (more : List ListenerEvent) (c : Nat) (s : Serving),
    (l.run consumer more).connections[c]? = some s → s.stream.ending = some .closed →
    ∃ (steps : List ListenerEvent) (last : Serving), (∀ event ∈ steps, Own c event) ∧
      (l.run consumer (more ++ steps)).connections[c]? = some last ∧ last.phase = .ended

/-- Whatever attempts to close there are, and however they interleave with each other and with
the listener. -/
theorem run_closesBehind (consumer : Consumer σ) (start : σ) (events : List ListenerEvent)
    (hstays : Stays events) :
    ClosesBehind consumer start events ((opened start).run consumer events) := by
  have hgone : ∀ k : Nat, ((opened start).run consumer events).door.closers[k]? =
      some Closer.returned → ((opened start).run consumer events).door.handle = false :=
    fun k hk => (run_sound start events hstays).gone k (.inl hk)
  have hunderway : ((opened start).run consumer events).door.Underway :=
    run_underway (fun hhandle => by simp [opened] at hhandle) events
  constructor
  · intro k hk
    simp [Door.isClosed, hgone k hk]
  · exact fun k htook hk => htook.shut hstays hk
  · intro k hk hopen
    obtain ⟨j, closer, htook, hj, hcloser⟩ := overtaken_of_gone rfl hstays (hgone k hk) hopen
    refine ⟨j, closer, ?_, htook, hj, hcloser⟩
    rintro rfl
    cases hopen.symm.trans (htook.shut hstays hk)
  · intro k hk
    obtain ⟨steps, hlength, hawaited, hshut⟩ := hunderway.shut (hgone k hk)
    refine ⟨steps, hlength, hawaited, ?_⟩
    rw [run_doorSteps]
    exact hshut
  · intro k hk hall
    obtain ⟨j, htook⟩ := took_of_gone rfl events hstays (hgone k hk)
    exact htook.shut hstays (hall j htook)
  · intro hshut more
    obtain ⟨hopen, hlength⟩ := run_shut hshut more
    refine ⟨hopen, hlength, ?_⟩
    apply sameService_of_shut _ hshut
    exact ⟨rfl, rfl, rfl⟩
  · intro more c s hs hended
    obtain ⟨steps, last, hown, hlast, hover⟩ := own_run consumer hs hended
    refine ⟨steps, last, hown, ?_, hover⟩
    rw [run_append]
    exact hlast

/-- The first attempt has the handle and has not asked yet. The second finds it gone. -/
def overlapping : List ListenerEvent :=
  [.accept, .door .close, .door .close, .door (.advance 0), .door (.advance 1)]

/-- The first attempt is given up where it waits for the task to end. -/
def givenUp : List ListenerEvent :=
  [.accept, .door .close, .door (.advance 0), .door (.advance 0), .door (.abandon 0),
    .door .close, .door (.advance 1)]

theorem closesBehind_overlapping : Stays overlapping ∧
    ClosesBehind counting 0 overlapping ((opened 0).run counting overlapping) := by
  have hstays : Stays overlapping := by simp [Stays, overlapping]
  exact ⟨hstays, run_closesBehind counting 0 overlapping hstays⟩

/-- In both runs the second attempt has returned, and a connection is accepted after that. -/
theorem returned_not_shut :
    (((opened 0).run counting overlapping).door.closers = [.holding, .returned] ∧
      ((opened 0).run counting overlapping).door.isOpen = true ∧
      ((opened 0).run counting overlapping).connections.length = 1 ∧
      ((opened 0).run counting (overlapping ++ [.accept])).connections.length = 2) ∧
    ((opened 0).run counting givenUp).door.closers = [.abandoned, .returned] ∧
      ((opened 0).run counting givenUp).door.isOpen = true ∧
      ((opened 0).run counting givenUp).connections.length = 1 ∧
      ((opened 0).run counting (givenUp ++ [.accept])).connections.length = 2 := by
  decide

end Listener

end GameRelay.Inbound
