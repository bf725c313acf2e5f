import GameRelay.Client
import GameRelay.Proofs.Inbound.Closing
import GameRelay.Proofs.Inbound.Naming
import GameRelay.Proofs.Inbound.Skip

/-!
# The two sides of a client do not interfere

Whatever is called, answered, lost or dialed again on the outbound side, the inbound
side goes on as if nothing had happened, and the other way round. Closing the
listener takes nothing from the connections that were accepted before, and nothing
from the outbound side. What names the tasks of the handlers is up to the runtime, and
may differ between two runs.
-/

set_option autoImplicit false

namespace GameRelay

open GameRelay.Frame GameRelay.Inbound GameRelay.Outbound GameRelay.Text

namespace ClientEvent

def outbound? : ClientEvent → Option CallerEvent
  | .outbound event => some event
  | .inbound _ => none

def inbound? : ClientEvent → Option ListenerEvent
  | .outbound _ => none
  | .inbound event => some event

end ClientEvent

namespace Client

variable {σ : Type}

def outboundOf (events : List ClientEvent) : List CallerEvent :=
  events.filterMap ClientEvent.outbound?

def inboundOf (events : List ClientEvent) : List ListenerEvent :=
  events.filterMap ClientEvent.inbound?

/-! ## Each side of a run -/

section
variable (consumer : Consumer σ)

theorem run_caller (c : Client σ) (events : List ClientEvent) :
    (c.run consumer events).caller = c.caller.run (outboundOf events) := by
  induction events generalizing c with
  | nil => rfl
  | cons event rest ih => cases event <;> exact ih _

theorem run_listener (c : Client σ) (events : List ClientEvent) :
    (c.run consumer events).listener = c.listener.run consumer (inboundOf events) := by
  induction events generalizing c with
  | nil => rfl
  | cons event rest ih => cases event <;> exact ih _

/-- The inbound side of a run that starts with a fresh listener. -/
theorem listener_of_fresh (config : Config) (start : σ) (events : List ClientEvent) :
    ((fresh config start).run consumer events).listener =
      (Listener.opened start).run consumer (inboundOf events) :=
  run_listener consumer _ events

end

/-! ## What is seen of a side -/

structure SameListening {τ : Type} (c : Client σ) (c' : Client τ) : Prop where
  accepted : c'.listener.connections.length = c.listener.connections.length
  unended : ∀ d : Nat, (c'.listener.connections[d]?).map Serving.isOpen =
    (c.listener.connections[d]?).map Serving.isOpen
  callbacks : c'.listener.heard = c.listener.heard
  isOpen : c'.listener.door.isOpen = c.listener.door.isOpen
  isClosed : c'.listener.door.isClosed = c.listener.door.isClosed

structure SameInbound (c c' : Client σ) : Prop extends SameListening c c' where
  replies : ∀ d : Nat, (c'.listener.connections[d]?).map Serving.written =
    (c.listener.connections[d]?).map Serving.written

theorem sameInbound_of_eq {c c' : Client σ} (h : c'.listener = c.listener) : SameInbound c c' := by
  refine ⟨?_, ?_⟩
  · constructor <;> simp [h]
  · simp [h]

structure AlikeInbound {τ : Type} (c : Client σ) (c' : Client τ) : Prop
    extends SameListening c c' where
  replies : ∀ (d : Nat) (s s' : Serving), c.listener.connections[d]? = some s →
    c'.listener.connections[d]? = some s' → List.Forall₂ AlikeReply s.written s'.written

theorem alikeInbound_of_alike {τ : Type} {forget : τ → σ} {c : Client σ} {c' : Client τ}
    (h : Listener.Alike forget c.listener c'.listener) : AlikeInbound c c' := by
  have hserving := Listener.getElem?_of_forall₂ h.connections
  refine ⟨⟨h.connections.length_eq.symm, fun d => ?_, h.heard, ?_, ?_⟩, fun d s s' hs hs' => ?_⟩
  · rcases hserving d with ⟨hd, hd'⟩ | ⟨s, s', hd, hd', halike⟩
    · rw [hd, hd']
    · rw [hd, hd']
      exact congrArg some halike.isOpen
  · rw [h.door]
  · rw [h.door]
  · rcases hserving d with ⟨hd, -⟩ | ⟨t, t', hd, hd', halike⟩
    · cases hs.symm.trans hd
    · cases hs.symm.trans hd
      cases hs'.symm.trans hd'
      exact halike.written

structure SameOutbound {τ : Type} (c : Client σ) (c' : Client τ) : Prop where
  verdicts : ∀ t, c'.caller.verdict? t = c.caller.verdict? t
  linked : c'.caller.links.length = c.caller.links.length
  queued : ∀ i : Nat, (c'.caller.links[i]?).map Link.queued =
    (c.caller.links[i]?).map Link.queued
  written : ∀ i : Nat, (c'.caller.links[i]?).map Link.written =
    (c.caller.links[i]?).map Link.written

theorem sameOutbound_of_eq {τ : Type} {c : Client σ} {c' : Client τ} (h : c'.caller = c.caller) :
    SameOutbound c c' := by
  constructor <;> simp [h]

/-! ## The same bytes at other moments -/

/-- A connection that was just accepted and has the consumer for itself, served to its end. -/
structure ServesAlone (consumer : Consumer σ) (c : Client σ) (d : Nat) (events : List ClientEvent)
    (s : Serving) : Prop where
  fresh : c.listener.connections[d]? = some {}
  alone : Listener.HandlesOnly d (inboundOf events)
  calm : ∀ e ∈ c.listener.eventsOn consumer d (inboundOf events), e.breaks = false
  served : (c.run consumer events).listener.connections[d]? = some s
  ended : s.phase = .ended

theorem ServesAlone.yields {consumer : Consumer σ} {c : Client σ} {d : Nat}
    {events : List ClientEvent} {s : Serving} (h : c.ServesAlone consumer d events s) :
    Yields consumer c.listener.state
      (lines (ServingEvent.received (c.listener.eventsOn consumer d (inboundOf events))))
      (c.run consumer events).listener.state s.written
      ((c.listener.callbacksOn consumer d (inboundOf events)).map Prod.fst) := by
  have hserved := h.served
  rw [run_listener] at hserved ⊢
  exact Listener.yields_of_handlesOnly h.fresh h.alone h.calm hserved h.ended

/-- Its replies and its callbacks depend on its bytes and on the consumer, not on when the steps
of either side are taken. -/
theorem ServesAlone.same {consumer : Consumer σ} {c c' : Client σ} {d : Nat}
    {events events' : List ClientEvent} {s s' : Serving} (h : c.ServesAlone consumer d events s)
    (h' : c'.ServesAlone consumer d events' s') (hstart : c'.listener = c.listener)
    (hbytes : ServingEvent.received (c'.listener.eventsOn consumer d (inboundOf events')) =
      ServingEvent.received (c.listener.eventsOn consumer d (inboundOf events))) :
    s'.written = s.written ∧ (c'.run consumer events').listener.heardOn d =
      (c.run consumer events).listener.heardOn d := by
  have hyields := h.yields
  have hyields' := h'.yields
  rw [hbytes, hstart] at hyields'
  constructor
  · exact hyields'.responses.symm.trans hyields.responses
  · rw [run_listener, run_listener, Listener.run_heardOn h'.fresh, Listener.run_heardOn h.fresh,
      hstart]
    exact congrArg _ (hyields'.notices.symm.trans hyields.notices)

/-! ## Both sides of a run -/

/-- The two sides do not interfere: `c` is what these events have made of a client that was
started with a consumer at `start`. -/
structure Apart (consumer : Consumer σ) (start : σ) (events : List ClientEvent) (c : Client σ) :
    Prop where
  /-- Nothing on the outbound side is felt on the inbound side. -/
  inbound : ∀ (config : Config) (elsewhere : List ClientEvent),
    inboundOf elsewhere = inboundOf events →
    SameInbound c ((fresh config start).run consumer elsewhere)
  /-- Nor does it matter what the runtime calls the tasks of the handlers, but in the errors that
  tell of a panic. -/
  named : ∀ (τ : Type) (other : Consumer τ) (forget : τ → σ) (config : Config) (start' : τ)
    (elsewhere : List ClientEvent), Renames consumer other forget → forget start' = start →
    inboundOf elsewhere = inboundOf events →
    AlikeInbound c ((fresh config start').run other elsewhere)
  /-- Not even another consumer is felt on the outbound side. -/
  outbound : ∀ (τ : Type) (other : Consumer τ) (config : Config) (start' : τ)
    (elsewhere : List ClientEvent), outboundOf elsewhere = outboundOf events →
    SameOutbound c ((fresh config start').run other elsewhere)
  rescheduled : ∀ (c' : Client σ) (d : Nat) (more more' : List ClientEvent) (s s' : Serving),
    c.ServesAlone consumer d more s → c'.ServesAlone consumer d more' s' →
    c'.listener = c.listener →
    ServingEvent.received (c'.listener.eventsOn consumer d (inboundOf more')) =
      ServingEvent.received (c.listener.eventsOn consumer d (inboundOf more)) →
    s'.written = s.written ∧ (c'.run consumer more').listener.heardOn d =
      (c.run consumer more).listener.heardOn d
  /-- Whoever asks is told that the client does not listen any more. -/
  told : Listener.Stays (inboundOf events) → ∀ k : Nat,
    c.listener.door.closers[k]? = some Closer.returned → c.listener.door.isClosed = true
  /-- Once an attempt to close has returned, and no other one that may have the handle is on its
  way or was given up on it, the socket is closed. -/
  closes : Listener.Stays (inboundOf events) → c.listener.door.Closed →
    c.listener.door.isOpen = false
  /-- So it is once an attempt that had the handle has returned, whatever the others do. -/
  closesBehind : ∀ (k : Nat) (closer : Closer) (more : List ClientEvent),
    c.listener.door.closers[k]? = some closer → closer.hasHandle = true →
    Listener.Stays (inboundOf more) →
    (c.run consumer more).listener.door.closers[k]? = some Closer.returned →
    (c.run consumer more).listener.door.isOpen = false
  /-- Behind a closed door no connection is taken in, and those that are there are served as
  behind an open one to which nobody comes. -/
  refuses : c.listener.door.isOpen = false → ∀ more : List ClientEvent,
    (c.run consumer more).listener.door.isOpen = false ∧
    (c.run consumer more).listener.connections.length = c.listener.connections.length ∧
    Listener.SameService (c.run consumer more).listener
      (Listener.run consumer { c.listener with door := {} }
        ((inboundOf more).filter fun event => event != .accept))
  /-- A connection whose stream has ended comes to its end by steps of its own. -/
  goesOn : ∀ (d : Nat) (s : Serving), c.listener.connections[d]? = some s →
    s.stream.ending = some .closed →
    ∃ (steps : List ListenerEvent) (last : Serving), (∀ event ∈ steps, Listener.Own d event) ∧
      (c.run consumer (steps.map ClientEvent.inbound)).listener.connections[d]? = some last ∧
      last.phase = .ended

theorem inboundOf_map (steps : List ListenerEvent) :
    inboundOf (steps.map ClientEvent.inbound) = steps := by
  induction steps with
  | nil => rfl
  | cons event rest ih => exact congrArg (event :: ·) ih

theorem run_apart (consumer : Consumer σ) (config : Config) (start : σ)
    (events : List ClientEvent) :
    Apart consumer start events ((fresh config start).run consumer events) := by
  constructor
  · intro config' elsewhere hsame
    apply sameInbound_of_eq
    rw [listener_of_fresh, listener_of_fresh, hsame]
  · intro τ other forget config' start' elsewhere hnames hstart hsame
    apply alikeInbound_of_alike
    rw [listener_of_fresh, listener_of_fresh, hsame]
    have hopened : Listener.Alike forget (Listener.opened start) (Listener.opened start') :=
      ⟨rfl, hstart, rfl, .nil⟩
    exact hopened.run hnames (inboundOf events)
  · intro τ other config' start' elsewhere hsame
    apply sameOutbound_of_eq
    rw [run_caller, run_caller, hsame]
    rfl
  · intro c' d more more' s s' h h' hstart hbytes
    exact h.same h' hstart hbytes
  · intro hstays k hk
    rw [listener_of_fresh] at hk ⊢
    have hgone := (Listener.run_sound start _ hstays).gone k (.inl hk)
    simp [Door.isClosed, hgone]
  · intro hstays hclosed
    rw [listener_of_fresh] at hclosed ⊢
    exact hclosed.shut (Listener.run_sound start _ hstays)
  · intro k closer more hk hholds hstays hreturned
    rw [run_listener] at hreturned ⊢
    exact Listener.shut_of_returned hk hholds _ hstays hreturned
  · intro hshut more
    rw [run_listener _ _ more]
    obtain ⟨hopen, hlength⟩ := Listener.run_shut hshut (inboundOf more)
    refine ⟨hopen, hlength, ?_⟩
    apply Listener.sameService_of_shut _ hshut
    exact ⟨rfl, rfl, rfl⟩
  · intro d s hs hended
    obtain ⟨steps, last, hown, hlast, hover⟩ := Listener.own_run consumer hs hended
    refine ⟨steps, last, hown, ?_, hover⟩
    rw [run_listener, inboundOf_map]
    exact hlast

/-- The first attempt to close has the handle and has not asked the task to stop yet. The second
one finds the handle gone. -/
def closedTwice : List ClientEvent :=
  ([.door .close, .door .close, .door (.advance 0), .door (.advance 1)] :
    List ListenerEvent).map .inbound

/-- The first attempt is given up where it waits for the task to end, before there is a second. -/
def closedAgain : List ClientEvent :=
  ([.door .close, .door (.advance 0), .door (.advance 0), .door (.abandon 0), .door .close,
    .door (.advance 1)] : List ListenerEvent).map .inbound

/-- Without the provisos of `closes` and `closesBehind` the return of an attempt says nothing: in
both runs the second one has returned, and a connection that comes after that is accepted. -/
theorem accepted_after_close :
    (((fresh .default 0).run Listener.counting closedTwice).listener.door.closers =
        [.holding, .returned] ∧
      ((fresh .default 0).run Listener.counting closedTwice).listener.connections = [] ∧
      ((fresh .default 0).run Listener.counting
        (closedTwice ++ [.inbound .accept])).listener.connections.length = 1) ∧
    ((fresh .default 0).run Listener.counting closedAgain).listener.door.closers =
        [.abandoned, .returned] ∧
      ((fresh .default 0).run Listener.counting closedAgain).listener.connections = [] ∧
      ((fresh .default 0).run Listener.counting
        (closedAgain ++ [.inbound .accept])).listener.connections.length = 1 := by
  exact ⟨⟨rfl, rfl, rfl⟩, rfl, rfl, rfl⟩

end Client

end GameRelay
