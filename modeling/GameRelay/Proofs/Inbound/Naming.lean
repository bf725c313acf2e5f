import GameRelay.Inbound.Listener
import Mathlib.Data.List.Forall2

/-!
# What names the tasks of the handlers

Every handler runs in a task of its own, and the runtime names it. A name shows only
where the handler panics, in the error of the reply and in what is reported. Whatever
the names are, everything else goes the same way.
-/

set_option autoImplicit false

namespace GameRelay.Inbound

open GameRelay.Frame GameRelay.Json GameRelay.Text

inductive Reaction.Alike : Reaction → Reaction → Prop where
  | returned (value : Value) : Alike (.returned value) (.returned value)
  | panicked (task other : String) (text : Option String) :
      Alike (.panicked task text) (.panicked other text)

inductive AlikeReply : Response → Response → Prop where
  | same (reply : Response) : AlikeReply reply reply
  | panicked (id : Value) (task other : String) (text : Option String) :
      AlikeReply (.failed id s!"callback failed: {taskFailure task text}")
        (.failed id s!"callback failed: {taskFailure other text}")

theorem AlikeReply.respond {reaction other : Reaction} (h : reaction.Alike other) (call : Call)
    (request : Request) :
    AlikeReply (call.respond request reaction) (call.respond request other) := by
  cases h with
  | returned value => exact .same _
  | panicked task other text => exact .panicked request.id task other text

/-! ## One connection -/

inductive Phase.Alike : Phase → Phase → Prop where
  | reading : Alike .reading .reading
  | calling (request : Request) (call : Call) :
      Alike (.calling request call) (.calling request call)
  | replying {reply other : Response} : AlikeReply reply other →
      Alike (.replying reply) (.replying other)
  | ended : Alike .ended .ended

namespace Serving

structure Alike (s s' : Serving) : Prop where
  stream : s'.stream = s.stream
  phase : s.phase.Alike s'.phase
  written : List.Forall₂ AlikeReply s.written s'.written

variable {s s' : Serving}

theorem fresh_alike : ({} : Serving).Alike {} := ⟨rfl, .reading, .nil⟩

theorem Alike.arrive (h : s.Alike s') (bytes : List UInt8) :
    (s.arrive bytes).Alike (s'.arrive bytes) :=
  ⟨congrArg (·.arrive bytes) h.stream, h.phase, h.written⟩

theorem Alike.finish (h : s.Alike s') (why : Ending) : (s.finish why).Alike (s'.finish why) :=
  ⟨congrArg (·.finish why) h.stream, h.phase, h.written⟩

theorem Alike.isOpen (h : s.Alike s') : s'.isOpen = s.isOpen := by
  have hphase := h.phase
  unfold Serving.isOpen
  generalize s.phase = phase at hphase
  generalize s'.phase = phase' at hphase
  cases hphase <;> rfl

theorem Alike.waiting (h : s.Alike s') : s'.waiting? = s.waiting? := by
  have hphase := h.phase
  unfold Serving.waiting?
  generalize s.phase = phase at hphase
  generalize s'.phase = phase' at hphase
  cases hphase <;> rfl

/-- What is read next is in the stream alone. -/
theorem Alike.read (h : s.Alike s') : s.read.1.Alike s'.read.1 := by
  obtain ⟨stream, phase, written⟩ := s
  obtain ⟨stream', phase', written'⟩ := s'
  obtain ⟨rfl, hphase, hwritten⟩ := h
  cases hphase with
  | reading =>
    simp only [Serving.read]
    split
    · exact ⟨rfl, .reading, hwritten⟩
    · exact ⟨rfl, .ended, hwritten⟩
    · exact ⟨rfl, .ended, hwritten⟩
    · split
      · exact ⟨rfl, .reading, hwritten⟩
      · exact ⟨rfl, .reading, hwritten⟩
      · exact ⟨rfl, .ended, hwritten⟩
      · split
        · exact ⟨rfl, .calling _ _, hwritten⟩
        · exact ⟨rfl, .replying (.same _), hwritten⟩
  | calling request call => exact ⟨rfl, .calling request call, hwritten⟩
  | replying hreply => exact ⟨rfl, .replying hreply, hwritten⟩
  | ended => exact ⟨rfl, .ended, hwritten⟩

theorem Alike.settle (h : s.Alike s') {reaction other : Reaction}
    (hreaction : reaction.Alike other) : (s.settle reaction).1.Alike (s'.settle other).1 := by
  obtain ⟨stream, phase, written⟩ := s
  obtain ⟨stream', phase', written'⟩ := s'
  obtain ⟨rfl, hphase, hwritten⟩ := h
  cases hphase with
  | reading => exact ⟨rfl, .reading, hwritten⟩
  | calling request call => exact ⟨rfl, .replying (.respond hreaction call request), hwritten⟩
  | replying hreply => exact ⟨rfl, .replying hreply, hwritten⟩
  | ended => exact ⟨rfl, .ended, hwritten⟩

theorem Alike.write (h : s.Alike s') : s.write.Alike s'.write := by
  obtain ⟨stream, phase, written⟩ := s
  obtain ⟨stream', phase', written'⟩ := s'
  obtain ⟨rfl, hphase, hwritten⟩ := h
  cases hphase with
  | reading => exact ⟨rfl, .reading, hwritten⟩
  | calling request call => exact ⟨rfl, .calling request call, hwritten⟩
  | replying hreply => exact ⟨rfl, .reading, List.rel_append hwritten (.cons hreply .nil)⟩
  | ended => exact ⟨rfl, .ended, hwritten⟩

theorem Alike.failWrite (h : s.Alike s') (error : SystemError) :
    (s.failWrite error).1.Alike (s'.failWrite error).1 := by
  obtain ⟨stream, phase, written⟩ := s
  obtain ⟨stream', phase', written'⟩ := s'
  obtain ⟨rfl, hphase, hwritten⟩ := h
  cases hphase with
  | reading => exact ⟨rfl, .reading, hwritten⟩
  | calling request call => exact ⟨rfl, .calling request call, hwritten⟩
  | replying | ended => exact ⟨rfl, .ended, hwritten⟩

end Serving

/-! ## A whole listener -/

/-- The consumer under a runtime that names its tasks in another way. Where the names come from
may be part of the state, and is forgotten. -/
structure Renames {σ τ : Type} (consumer : Consumer σ) (named : Consumer τ) (forget : τ → σ) :
    Prop where
  state : ∀ t notice, forget (named.handle t notice).1 = (consumer.handle (forget t) notice).1
  reaction : ∀ t notice,
    (consumer.handle (forget t) notice).2.Alike (named.handle t notice).2

namespace Listener

structure Alike {σ τ : Type} (forget : τ → σ) (l : Listener σ) (l' : Listener τ) : Prop where
  door : l'.door = l.door
  state : forget l'.state = l.state
  heard : l'.heard = l.heard
  connections : List.Forall₂ Serving.Alike l.connections l'.connections

theorem getElem?_of_forall₂ {α β : Type} {R : α → β → Prop} {xs : List α} {ys : List β}
    (h : List.Forall₂ R xs ys) (c : Nat) :
    (xs[c]? = none ∧ ys[c]? = none) ∨ ∃ x y, xs[c]? = some x ∧ ys[c]? = some y ∧ R x y := by
  induction h generalizing c with
  | nil => exact .inl ⟨rfl, rfl⟩
  | cons hxy _ ih =>
    cases c with
    | zero => exact .inr ⟨_, _, rfl, rfl, hxy⟩
    | succ c => exact ih c

theorem forall₂_set {α β : Type} {R : α → β → Prop} {xs : List α} {ys : List β}
    (h : List.Forall₂ R xs ys) (c : Nat) {x : α} {y : β} (hxy : R x y) :
    List.Forall₂ R (xs.set c x) (ys.set c y) := by
  induction h generalizing c with
  | nil => exact .nil
  | cons hfirst hrest ih =>
    cases c with
    | zero => exact .cons hxy hrest
    | succ c => exact .cons hfirst (ih c)

section
variable {σ τ : Type} {consumer : Consumer σ} {named : Consumer τ} {forget : τ → σ}
  {l : Listener σ} {l' : Listener τ}

theorem Alike.onConnection (h : Alike forget l l') (c : Nat) {f g : Serving → Serving × List Report}
    (hfg : ∀ s s' : Serving, s.Alike s' → (f s).1.Alike (g s').1) :
    Alike forget (l.onConnection c f) (l'.onConnection c g) := by
  rcases getElem?_of_forall₂ h.connections c with ⟨hs, hs'⟩ | ⟨s, s', hs, hs', hserving⟩
  · simp only [Listener.onConnection, hs, hs']
    exact h
  · simp only [Listener.onConnection, hs, hs']
    exact ⟨h.door, h.state, h.heard, forall₂_set h.connections c (hfg s s' hserving)⟩

theorem Alike.waiting (h : Alike forget l l') (c : Nat) :
    l'.connections[c]?.bind Serving.waiting? = l.connections[c]?.bind Serving.waiting? := by
  rcases getElem?_of_forall₂ h.connections c with ⟨hs, hs'⟩ | ⟨s, s', hs, hs', hserving⟩
  · rw [hs, hs']
  · rw [hs, hs']
    exact hserving.waiting

theorem Alike.handle (h : Alike forget l l') (hnames : Renames consumer named forget) (c : Nat) :
    Alike forget (l.handle consumer c) (l'.handle named c) := by
  unfold Listener.handle
  rw [h.waiting c]
  split
  · exact h
  · rename_i notice _
    have hstate := hnames.state l'.state notice
    have hreaction := hnames.reaction l'.state notice
    rw [h.state] at hstate hreaction
    generalize consumer.handle l.state notice = done at hstate hreaction ⊢
    generalize named.handle l'.state notice = done' at hstate hreaction ⊢
    obtain ⟨state, reaction⟩ := done
    obtain ⟨state', reaction'⟩ := done'
    refine Alike.onConnection ?_ c fun _ _ hs => hs.settle hreaction
    exact ⟨h.door, hstate, congrArg (· ++ [(c, notice)]) h.heard, h.connections⟩

theorem Alike.step (h : Alike forget l l') (hnames : Renames consumer named forget)
    (event : ListenerEvent) : Alike forget (l.step consumer event) (l'.step named event) := by
  cases event with
  | accept =>
    simp only [Listener.step, h.door]
    split
    · exact ⟨rfl, h.state, h.heard,
        List.rel_append h.connections (.cons Serving.fresh_alike .nil)⟩
    · exact h
  | acceptFailed error =>
    simp only [Listener.step, h.door]
    split
    · exact ⟨rfl, h.state, h.heard, h.connections⟩
    · exact h
  | arrive c bytes => exact h.onConnection c fun _ _ hs => hs.arrive bytes
  | finish c why => exact h.onConnection c fun _ _ hs => hs.finish why
  | read c => exact h.onConnection c fun _ _ hs => hs.read
  | handle c => exact h.handle hnames c
  | write c => exact h.onConnection c fun _ _ hs => hs.write
  | writeFailed c error => exact h.onConnection c fun _ _ hs => hs.failWrite error
  | door event => exact ⟨congrArg (·.step event) h.door, h.state, h.heard, h.connections⟩

theorem Alike.run (h : Alike forget l l') (hnames : Renames consumer named forget)
    (events : List ListenerEvent) : Alike forget (l.run consumer events) (l'.run named events) := by
  induction events generalizing l l' with
  | nil => exact h
  | cons event rest ih => exact ih (h.step hnames event)

end

end Listener

end GameRelay.Inbound
