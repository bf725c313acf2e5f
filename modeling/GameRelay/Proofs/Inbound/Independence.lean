import GameRelay.Proofs.Inbound.Alone
import GameRelay.Proofs.Inbound.Service

/-!
# Connections do not touch each other

Every accepted connection is served by one task, as if it were alone with the
reactions that its callbacks had. The consumer sees a merge of what the connections
ask for. No step of another connection, and no accept, depends on how far a
connection has come or on what has become of it.
-/

set_option autoImplicit false

namespace GameRelay.Inbound

open GameRelay.Frame GameRelay.Json GameRelay.Text

def ListenerEvent.connection? : ListenerEvent → Option Nat
  | .arrive c _ | .finish c _ | .read c | .handle c | .write c | .writeFailed c _ => some c
  | .accept | .acceptFailed _ | .door _ => none

namespace Listener

variable {σ : Type}

/-! ## One task for each connection -/

def accepts (consumer : Consumer σ) : Listener σ → List ListenerEvent → Nat
  | _, [] => 0
  | l, event :: rest =>
    (if event = .accept ∧ l.door.accepts = true then 1 else 0) +
      accepts consumer (l.step consumer event) rest

section
variable {consumer : Consumer σ} {l : Listener σ}

theorem onConnection_length (l : Listener σ) (c : Nat) (f : Serving → Serving × List Report) :
    (l.onConnection c f).connections.length = l.connections.length := by
  unfold onConnection
  split
  · rfl
  · exact List.length_set

theorem handle_length (l : Listener σ) (c : Nat) :
    (l.handle consumer c).connections.length = l.connections.length := by
  unfold handle
  split
  · rfl
  · exact onConnection_length _ c _

theorem step_length (l : Listener σ) (event : ListenerEvent) :
    (l.step consumer event).connections.length =
      l.connections.length + if event = .accept ∧ l.door.accepts = true then 1 else 0 := by
  cases event with
  | accept =>
    simp only [step]
    split <;> simp_all
  | acceptFailed error =>
    simp only [step]
    split <;> simp
  | arrive c bytes => exact (onConnection_length l c _).trans (by simp)
  | finish c why => exact (onConnection_length l c _).trans (by simp)
  | read c => exact (onConnection_length l c _).trans (by simp)
  | handle c => exact (handle_length l c).trans (by simp)
  | write c => exact (onConnection_length l c _).trans (by simp)
  | writeFailed c error => exact (onConnection_length l c _).trans (by simp)
  | door event => simp [step]

theorem run_length (l : Listener σ) (events : List ListenerEvent) :
    (l.run consumer events).connections.length =
      l.connections.length + l.accepts consumer events := by
  induction events generalizing l with
  | nil => rfl
  | cons event rest ih => rw [run, accepts, ih, step_length, Nat.add_assoc]

/-! ## What the consumer has seen -/

structure Merged (consumer : Consumer σ) (start : σ) (l : Listener σ) : Prop where
  state : l.state =
    (l.heard.map Prod.snd).foldl (fun state notice => (consumer.handle state notice).1) start
  known : ∀ entry ∈ l.heard, entry.1 < l.connections.length

theorem Merged.of_same {start : σ} (h : Merged consumer start l) {l' : Listener σ}
    (hstate : l'.state = l.state) (hheard : l'.heard = l.heard)
    (hlength : l.connections.length ≤ l'.connections.length) : Merged consumer start l' where
  state := by rw [hstate, hheard, h.state]
  known entry hentry := by
    have hlt := h.known entry (hheard ▸ hentry)
    omega

theorem Merged.onConnection {start : σ} (h : Merged consumer start l) (c : Nat)
    (f : Serving → Serving × List Report) : Merged consumer start (l.onConnection c f) := by
  have hlength := onConnection_length l c f
  unfold Listener.onConnection at hlength ⊢
  split at hlength <;> exact h.of_same rfl rfl (by omega)

theorem Merged.handle {start : σ} (h : Merged consumer start l) (c : Nat) :
    Merged consumer start (l.handle consumer c) := by
  unfold Listener.handle
  cases hwaiting : l.connections[c]?.bind Serving.waiting? with
  | none => exact h
  | some notice =>
    obtain ⟨s, hs, -⟩ := Option.bind_eq_some_iff.mp hwaiting
    apply Merged.onConnection
    constructor
    · simp only [List.map_append, List.map_cons, List.map_nil, List.foldl_append, List.foldl_cons,
        List.foldl_nil, h.state]
    · intro entry hentry
      rcases List.mem_append.mp hentry with hentry | hentry
      · exact h.known entry hentry
      · obtain rfl := List.mem_singleton.mp hentry
        exact (List.getElem?_eq_some_iff.mp hs).1

theorem Merged.step {start : σ} (h : Merged consumer start l) (event : ListenerEvent) :
    Merged consumer start (l.step consumer event) := by
  cases event with
  | accept =>
    simp only [Listener.step]
    split
    · exact h.of_same rfl rfl (by simp)
    · exact h
  | acceptFailed error =>
    simp only [Listener.step]
    split
    · exact h.of_same rfl rfl (by simp)
    · exact h
  | arrive c bytes => exact h.onConnection c _
  | finish c why => exact h.onConnection c _
  | read c => exact h.onConnection c _
  | handle c => exact h.handle c
  | write c => exact h.onConnection c _
  | writeFailed c error => exact h.onConnection c _
  | door event => exact h.of_same rfl rfl (by simp [Listener.step])

theorem Merged.run {start : σ} (h : Merged consumer start l) (events : List ListenerEvent) :
    Merged consumer start (l.run consumer events) := by
  induction events generalizing l with
  | nil => exact h
  | cons event rest ih => exact ih (h.step event)

/-! ## A connection that stands still -/

def replace (l : Listener σ) (c : Nat) (s : Serving) : Listener σ :=
  { l with connections := l.connections.set c s }

theorem replace_onConnection (l : Listener σ) {c d : Nat} (hne : d ≠ c) (s : Serving)
    (f : Serving → Serving × List Report) :
    (l.replace c s).onConnection d f = (l.onConnection d f).replace c s := by
  unfold onConnection
  have hsame : (l.replace c s).connections[d]? = l.connections[d]? :=
    List.getElem?_set_ne (Ne.symm hne)
  rw [hsame]
  cases l.connections[d]? with
  | none => rfl
  | some s' =>
    simp only [replace]
    rw [List.set_comm _ _ (Ne.symm hne)]

theorem replace_step (l : Listener σ) {c : Nat} (hc : c < l.connections.length) (s : Serving)
    {event : ListenerEvent} (hother : event.connection? ≠ some c) :
    (l.replace c s).step consumer event = (l.step consumer event).replace c s := by
  have hne : ∀ d, event.connection? = some d → d ≠ c := by
    rintro d hd rfl
    exact hother hd
  cases event with
  | accept =>
    by_cases hdoor : l.door.accepts = true
    · simp [step, replace, hdoor, List.set_append_left _ _ hc]
    · simp [step, replace, hdoor]
  | acceptFailed error =>
    by_cases hdoor : l.door.accepts = true
    · simp [step, replace, hdoor]
    · simp [step, replace, hdoor]
  | arrive d bytes => exact replace_onConnection l (hne d rfl) s _
  | finish d why => exact replace_onConnection l (hne d rfl) s _
  | read d => exact replace_onConnection l (hne d rfl) s _
  | handle d =>
    have hsame : (l.replace c s).connections[d]? = l.connections[d]? :=
      List.getElem?_set_ne (Ne.symm (hne d rfl))
    simp only [step, handle, hsame]
    cases l.connections[d]?.bind Serving.waiting? with
    | none => rfl
    | some notice =>
      exact replace_onConnection
        { l with
          state := (consumer.handle l.state notice).1
          heard := l.heard ++ [(d, notice)] }
        (hne d rfl) s fun s' => s'.settle (consumer.handle l.state notice).2
  | write d => exact replace_onConnection l (hne d rfl) s _
  | writeFailed d error => exact replace_onConnection l (hne d rfl) s _
  | door event => rfl

/-- Whatever has become of a connection, everything else goes the same way. -/
theorem replace_run (l : Listener σ) {c : Nat} (hc : c < l.connections.length) (s : Serving)
    {events : List ListenerEvent} (hother : ∀ event ∈ events, event.connection? ≠ some c) :
    (l.replace c s).run consumer events = (l.run consumer events).replace c s := by
  induction events generalizing l with
  | nil => rfl
  | cons event rest ih =>
    have hlonger : (l.step consumer event).connections.length = _ := step_length l event
    rw [run, run, replace_step l hc s (hother event List.mem_cons_self)]
    exact ih _ (by omega) fun e he => hother e (List.mem_cons_of_mem _ he)

end

/-! ## Each connection alone -/

/-- A connection that has just been accepted, after some events: what it wrote and what the
consumer heard of it are the beginning of what serving its own bytes in one go gives, for the
reactions that its callbacks had, and all of it once the connection has ended unbroken. -/
structure ServedAlone (consumer : Consumer σ) (fresh : Listener σ) (c : Nat)
    (events : List ListenerEvent) (s : Serving) : Prop where
  connection : (fresh.run consumer events).connections[c]? = some s
  heard : (fresh.run consumer events).heardOn c =
    (fresh.callbacksOn consumer c events).map Prod.fst
  first : ∀ later bytes,
    ServingEvent.received (fresh.eventsOn consumer c (events ++ later)) = bytes →
    s.written <+: (serve scripted
      ((fresh.callbacksOn consumer c events).map Prod.snd) bytes).responses ∧
    (fresh.run consumer events).heardOn c ++ s.waiting?.toList <+: (serve scripted
      ((fresh.callbacksOn consumer c events).map Prod.snd) bytes).notices
  whole : (∀ event ∈ fresh.eventsOn consumer c events, event.breaks = false) →
    s.phase = .ended → ∀ later bytes,
    ServingEvent.received (fresh.eventsOn consumer c (events ++ later)) = bytes →
    s.written = (serve scripted
      ((fresh.callbacksOn consumer c events).map Prod.snd) bytes).responses ∧
    (fresh.run consumer events).heardOn c = (serve scripted
      ((fresh.callbacksOn consumer c events).map Prod.snd) bytes).notices

section
variable {consumer : Consumer σ} {l : Listener σ} {c : Nat}

theorem servedAlone_of_fresh (hfresh : l.connections[c]? = some {}) (hquiet : l.heardOn c = [])
    (events : List ListenerEvent) :
    ServedAlone consumer l c events
      (({} : Serving).run (l.eventsOn consumer c events)) := by
  have hheard : (l.run consumer events).heardOn c =
      (l.callbacksOn consumer c events).map Prod.fst := by
    rw [run_heardOn hfresh events, hquiet]
    rfl
  refine ⟨run_connection hfresh events, hheard, ?_, ?_⟩
  · rintro later bytes rfl
    obtain ⟨taken, hfollows⟩ := Serving.follows_run False
      (l.eventsOn consumer c events)
      ((l.run consumer events).eventsOn consumer c later) nofun
    rw [← eventsOn_append] at hfollows
    have htaken := (List.prefix_append taken _).trans hfollows.stream.isPrefix
    rw [hheard]
    exact hfollows.alone.isPrefix htaken
  · rintro hcalm hended later bytes rfl
    obtain ⟨taken, hfollows⟩ := Serving.follows_run True
      (l.eventsOn consumer c events)
      ((l.run consumer events).eventsOn consumer c later) fun _ => hcalm
    rw [← eventsOn_append] at hfollows
    have hyields := hfollows.complete trivial hended
    rw [hheard]
    exact ⟨hyields.responses.symm, hyields.notices.symm⟩

end

def opened (start : σ) : Listener σ := { state := start }

structure Independent (consumer : Consumer σ) (start : σ) (events : List ListenerEvent)
    (l : Listener σ) : Prop where
  /-- There is one task for each connection that was accepted. -/
  counted : l.connections.length = (opened start).accepts consumer events
  alone : ∀ before after, events = before ++ .accept :: after →
    ((opened start).run consumer before).door.accepts = true →
    ∃ s, ServedAlone consumer ((opened start).run consumer (before ++ [.accept]))
      ((opened start).run consumer before).connections.length after s
  merged : Merged consumer start l
  /-- Everything else goes the same way, whatever a connection's task has become. -/
  apart : ∀ c s more, c < l.connections.length →
    (∀ event ∈ more, event.connection? ≠ some c) →
    (l.replace c s).run consumer more = (l.run consumer more).replace c s
  goesOn : ∀ c s, l.connections[c]? = some s → s.CanGoOn → ∃ event s', Own c event ∧
    (l.step consumer event).connections[c]? = some s' ∧ s'.due < s.due
  /-- After a failed accept there is a pause, and then the next one. -/
  takesIn : l.door.isOpen = true →
    (l.run consumer [.door .rested, .accept]).connections = l.connections ++ [({} : Serving)]

theorem heardOn_of_known {l : Listener σ} {c : Nat} (h : ∀ entry ∈ l.heard, entry.1 < c) :
    l.heardOn c = [] := by
  rw [heardOn, List.filter_eq_nil_iff.mpr, List.map_nil]
  intro entry hentry
  have hlt := h entry hentry
  simp only [beq_iff_eq]
  omega

theorem run_independent (consumer : Consumer σ) (start : σ) (events : List ListenerEvent) :
    Independent consumer start events ((opened start).run consumer events) := by
  have hmerged : ∀ events, Merged consumer start ((opened start).run consumer events) :=
    fun events => Merged.run ⟨rfl, by simp [opened]⟩ events
  constructor
  · rw [run_length]
    exact Nat.zero_add _
  · rintro before after - hdoor
    have hknown := (hmerged before).known
    refine ⟨_, servedAlone_of_fresh ?_ ?_ after⟩
    · rw [run_append]
      simp only [run, step, hdoor, if_true]
      exact List.getElem?_concat_length
    · rw [run_append]
      simp only [run, step, hdoor, if_true]
      exact heardOn_of_known hknown
  · exact hmerged events
  · intro c s more hc hother
    exact replace_run _ hc s hother
  · intro c s hs hgo
    obtain ⟨event, s', hown, hs', -, hdue⟩ := own_step consumer hs hgo
    exact ⟨event, s', hown, hs', hdue⟩
  · intro hopen
    have haccepts :
        (((opened start).run consumer events).door.step .rested).accepts = true := by
      simpa [Door.accepts, Door.step] using hopen
    simp only [run, step, haccepts, if_true]

end Listener

end GameRelay.Inbound
