import GameRelay.Inbound.Listener
import GameRelay.Proofs.Inbound.Session

/-!
# Serving one connection among others

What the steps of a listener are to one of its connections: events of its own, in
which the handlers come to what the consumer made of them at that moment. Other
connections may use the same consumer in between.
-/

set_option autoImplicit false

namespace GameRelay.Inbound

open GameRelay.Frame GameRelay.Json GameRelay.Text

namespace Serving

theorem run_append (s : Serving) (events more : List ServingEvent) :
    s.run (events ++ more) = (s.run events).run more := by
  induction events generalizing s with
  | nil => rfl
  | cons event rest ih => exact ih _

theorem callbacks_append (s : Serving) (events more : List ServingEvent) :
    s.callbacks (events ++ more) =
      s.callbacks events ++ (s.run events).callbacks more := by
  induction events generalizing s with
  | nil => rfl
  | cons event rest ih => simp [callbacks, run, ih]

end Serving

namespace Listener

variable {σ : Type}

def eventOn? (consumer : Consumer σ) (c : Nat) (l : Listener σ) :
    ListenerEvent → Option ServingEvent
  | .arrive d bytes => if d = c then some (.arrive bytes) else none
  | .finish d why => if d = c then some (.finish why) else none
  | .read d => if d = c then some .read else none
  | .handle d =>
    if d = c then
      (l.connections[c]?.bind Serving.waiting?).map fun notice =>
        .handled (consumer.handle l.state notice).2
    else none
  | .write d => if d = c then some .write else none
  | .writeFailed d error => if d = c then some (.writeFailed error) else none
  | .accept | .acceptFailed _ | .door _ => none

def eventsOn (consumer : Consumer σ) (c : Nat) :
    Listener σ → List ListenerEvent → List ServingEvent
  | _, [] => []
  | l, event :: rest =>
    (l.eventOn? consumer c event).toList ++
      eventsOn consumer c (l.step consumer event) rest

def callbacksOn (consumer : Consumer σ) (c : Nat) (l : Listener σ) (events : List ListenerEvent) :
    List (Notice × Reaction) :=
  ({} : Serving).callbacks (l.eventsOn consumer c events)

def heardOn (l : Listener σ) (c : Nat) : List Notice :=
  (l.heard.filter fun entry => entry.1 == c).map Prod.snd

/-! ## One connection of a listener -/

section
variable {consumer : Consumer σ} {l : Listener σ} {c : Nat} {s : Serving}

theorem onConnection_self (hs : l.connections[c]? = some s) (f : Serving → Serving × List Report) :
    (l.onConnection c f).connections[c]? = some (f s).1 := by
  have hlt := (List.getElem?_eq_some_iff.mp hs).1
  simp only [onConnection, hs]
  exact List.getElem?_set_self hlt

theorem onConnection_heard (l : Listener σ) (c d : Nat) (f : Serving → Serving × List Report) :
    (l.onConnection d f).heardOn c = l.heardOn c := by
  unfold onConnection
  split <;> rfl

/-- A step goes to one connection, and is what `eventOn?` says. -/
theorem onConnection_run (hs : l.connections[c]? = some s) (d : Nat)
    (f : Serving → Serving × List Report) (event : ServingEvent) (hf : (f s).1 = s.step event) :
    (l.onConnection d f).connections[c]? =
      some (s.run (if d = c then some event else none).toList) := by
  by_cases hd : d = c
  · subst hd
    rw [onConnection_self hs, hf, if_pos rfl]
    rfl
  · rw [onConnection_other l d c f (Ne.symm hd), hs, if_neg hd]
    rfl

theorem handle_connection (hs : l.connections[c]? = some s) (d : Nat) :
    (l.handle consumer d).connections[c]? =
      some (s.run (l.eventOn? consumer c (.handle d)).toList) := by
  unfold handle
  by_cases hd : d = c
  · subst hd
    cases hwaiting : s.waiting? with
    | none => simp [hs, hwaiting, eventOn?, Serving.run]
    | some notice =>
      simp only [hs, Option.bind_some, hwaiting, eventOn?, if_true, Option.map_some]
      refine (onConnection_self ?_ _).trans rfl
      exact hs
  · simp only [eventOn?, if_neg hd]
    split
    · exact hs
    · rw [onConnection_other _ d c _ (Ne.symm hd)]
      exact hs

theorem step_connection (hs : l.connections[c]? = some s) (event : ListenerEvent) :
    (l.step consumer event).connections[c]? =
      some (s.run (l.eventOn? consumer c event).toList) := by
  cases event with
  | accept =>
    have hlt := (List.getElem?_eq_some_iff.mp hs).1
    simp only [step]
    split
    · rw [List.getElem?_append_left hlt, hs]
      rfl
    · exact hs
  | acceptFailed error =>
    simp only [step]
    split <;> exact hs
  | arrive d bytes => exact onConnection_run hs d _ (.arrive bytes) rfl
  | finish d why => exact onConnection_run hs d _ (.finish why) rfl
  | read d => exact onConnection_run hs d _ .read rfl
  | handle d => exact handle_connection hs d
  | write d => exact onConnection_run hs d _ .write rfl
  | writeFailed d error => exact onConnection_run hs d _ (.writeFailed error) rfl
  | door event => exact hs

theorem handle_heardOn (hs : l.connections[c]? = some s) (d : Nat) :
    (l.handle consumer d).heardOn c = l.heardOn c ++
      (s.callbacks (l.eventOn? consumer c (.handle d)).toList).map Prod.fst := by
  unfold handle
  by_cases hd : d = c
  · subst hd
    cases hwaiting : s.waiting? with
    | none => simp [hs, hwaiting, eventOn?, Serving.callbacks]
    | some notice =>
      simp [hs, hwaiting, eventOn?, Serving.callbacks, Serving.callback?, onConnection_heard]
      simp [heardOn]
  · simp only [eventOn?, if_neg hd]
    split
    · simp [Serving.callbacks]
    · rw [onConnection_heard]
      simp [heardOn, hd, Serving.callbacks]

theorem step_heardOn (hs : l.connections[c]? = some s) (event : ListenerEvent) :
    (l.step consumer event).heardOn c = l.heardOn c ++
      (s.callbacks (l.eventOn? consumer c event).toList).map Prod.fst := by
  -- Only the end of a handler is heard of.
  have hquiet : ∀ (d : Nat) (f : Serving → Serving × List Report) (e : ServingEvent),
      s.callback? e = none → (l.onConnection d f).heardOn c = l.heardOn c ++
        (s.callbacks (if d = c then some e else none).toList).map Prod.fst := by
    intro d f e he
    rw [onConnection_heard]
    split <;> simp [Serving.callbacks, he]
  cases event with
  | accept =>
    simp only [step, eventOn?]
    split <;> simp [Serving.callbacks, heardOn]
  | acceptFailed error =>
    simp only [step, eventOn?]
    split <;> simp [Serving.callbacks, heardOn]
  | arrive d bytes => exact hquiet d _ (.arrive bytes) rfl
  | finish d why => exact hquiet d _ (.finish why) rfl
  | read d => exact hquiet d _ .read rfl
  | handle d => exact handle_heardOn hs d
  | write d => exact hquiet d _ .write rfl
  | writeFailed d error => exact hquiet d _ (.writeFailed error) rfl
  | door event => simp [step, eventOn?, Serving.callbacks, heardOn]

theorem eventsOn_append (consumer : Consumer σ) (c : Nat) (l : Listener σ)
    (events more : List ListenerEvent) :
    l.eventsOn consumer c (events ++ more) =
      l.eventsOn consumer c events ++
        (l.run consumer events).eventsOn consumer c more := by
  induction events generalizing l with
  | nil => rfl
  | cons event rest ih => simp [eventsOn, run, ih]

/-- A run of the listener is to each of its connections a run of its own. -/
theorem run_connection (hs : l.connections[c]? = some s) (events : List ListenerEvent) :
    (l.run consumer events).connections[c]? =
      some (s.run (l.eventsOn consumer c events)) := by
  induction events generalizing l s with
  | nil => exact hs
  | cons event rest ih =>
    rw [run, eventsOn, Serving.run_append]
    exact ih (step_connection hs event)

theorem run_heardOn (hs : l.connections[c]? = some s) (events : List ListenerEvent) :
    (l.run consumer events).heardOn c = l.heardOn c ++
      (s.callbacks (l.eventsOn consumer c events)).map Prod.fst := by
  induction events generalizing l s with
  | nil => simp [run, eventsOn, Serving.callbacks]
  | cons event rest ih =>
    rw [run, eventsOn, Serving.callbacks_append, ih (step_connection hs event),
      step_heardOn hs event, List.append_assoc, List.map_append]

end

end Listener

end GameRelay.Inbound
