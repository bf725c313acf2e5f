import GameRelay.Outbound.Caller
import GameRelay.Proofs.Link.Table

/-!
# The links of a caller

Every link that a caller ever installed has a run of its own, and the installed
one is the last and was not dropped. What a call asks for never changes, nor does
what it came to.
-/

set_option autoImplicit false

namespace GameRelay.Outbound

open GameRelay.Frame GameRelay.Json

def Call.spec (c : Call) : CallSpec := ⟨c.method, c.argument, c.want⟩

namespace Link

theorem dropped_of_move {l l' : Link} {event : LinkEvent} (h : l.Move event l')
    (hevent : event ≠ .discard) : l'.dropped = l.dropped := by
  cases h with
  | discarded => exact absurd rfl hevent
  | registered | left =>
    simp only [enter, cancel, setStage]
    split <;> rfl
  | none | started | refused | queued | notQueued | collected | disconnected | abandoned
  | arrived | finished | overheard | taken | readEnded | handed | wrote | writeFailed
  | queueClosed => rfl

theorem spec_of_change {l l' : Link} {s s' : Slot} (h : Change l l' s s') :
    s'.call.spec = s.call.spec := by
  cases h <;> rfl

theorem ended_of_change {l l' : Link} {s s' : Slot} (h : Change l l' s s') {o : Option Outcome}
    (hs : s.call.stage = .ended o) : s'.call.stage = .ended o := by
  cases h <;> simp_all

theorem run_call {l : Link} (h : l.Coherent) (events : List LinkEvent) {k : Nat} {c : Call}
    (hk : l.calls[k]? = some c) : ∃ c', (l.run events).calls[k]? = some c' ∧ c'.spec = c.spec ∧
      ∀ o, c.stage = .ended o → c'.stage = .ended o := by
  induction events generalizing l c with
  | nil => exact ⟨c, hk, rfl, fun _ ho => ho⟩
  | cons event rest ih =>
    obtain ⟨c₁, hk₁, hchange⟩ := step_changes h event k c hk
    obtain ⟨c₂, hk₂, hspec, hended⟩ := ih (step_coherent h event) hk₁
    exact ⟨c₂, hk₂, hspec.trans (spec_of_change hchange),
      fun o ho => hended o (ended_of_change hchange ho)⟩

end Link

namespace Caller

def call? (c : Caller) (i k : Nat) : Option Call := c.links[i]?.bind fun l => l.calls[k]?

theorem call?_eq_some_iff {c : Caller} {i k : Nat} {call : Call} :
    c.call? i k = some call ↔ ∃ l, c.links[i]? = some l ∧ l.calls[k]? = some call := by
  simp [call?, Option.bind_eq_some_iff]

theorem stage?_of_call {c : Caller} {i k : Nat} {l : Link} {call : Call}
    (hl : c.links[i]? = some l) (hk : l.calls[k]? = some call) :
    c.stage? i k = some call.stage := by
  simp [stage?, hl, hk]

theorem call_of_stage? {c : Caller} {i k : Nat} {stage : Stage}
    (hs : c.stage? i k = some stage) :
    ∃ l call, c.links[i]? = some l ∧ l.calls[k]? = some call ∧ call.stage = stage := by
  obtain ⟨call, hcall, rfl⟩ := Option.map_eq_some_iff.mp hs
  obtain ⟨l, hl, hk⟩ := Option.bind_eq_some_iff.mp hcall
  exact ⟨l, call, hl, hk, rfl⟩

theorem isSome_call?_iff {c : Caller} {i k : Nat} :
    (c.call? i k).isSome = true ↔ ∃ l, c.links[i]? = some l ∧ k < l.calls.length := by
  unfold call?
  cases c.links[i]? with
  | none => simp
  | some l => simp

theorem call?_of_links {c c' : Caller} (h : c'.links = c.links) (i k : Nat) :
    c'.call? i k = c.call? i k := by
  rw [call?, h, call?]

structure Linked (c : Caller) : Prop where
  reached : ∀ l ∈ c.links, ∃ events, l = ({} : Link).run events
  last : c.links.length = c.installed + 1
  live : ∀ l, c.links[c.installed]? = some l → l.dropped = false

def Later (c c' : Caller) : Prop :=
  ∀ i k call, c.call? i k = some call → ∃ call', c'.call? i k = some call' ∧
    call'.spec = call.spec ∧ ∀ o, call.stage = .ended o → call'.stage = .ended o

structure Follows (c c' : Caller) : Prop where
  linked : c'.Linked
  later : c.Later c'
  fresh : ∀ i k, (c'.call? i k).isSome = true → (c.call? i k).isSome = true

theorem later_of_links {c c' : Caller} (h : c'.links = c.links) : c.Later c' :=
  fun i k call hcall => ⟨call, by rw [call?_of_links h, hcall], rfl, fun _ ho => ho⟩

theorem Later.trans {c c' c'' : Caller} (h : c.Later c') (h' : c'.Later c'') : c.Later c'' := by
  intro i k call hcall
  obtain ⟨call', hcall', hspec', hended'⟩ := h i k call hcall
  obtain ⟨call'', hcall'', hspec'', hended''⟩ := h' i k call' hcall'
  exact ⟨call'', hcall'', hspec''.trans hspec', fun o ho => hended'' o (hended' o ho)⟩

theorem Follows.trans {c c' c'' : Caller} (h : c.Follows c') (h' : c'.Follows c'') :
    c.Follows c'' :=
  ⟨h'.linked, h.later.trans h'.later, fun i k hcall => h.fresh i k (h'.fresh i k hcall)⟩

theorem linked_of_links {c c' : Caller} (h : c.Linked) (hlinks : c'.links = c.links)
    (hinstalled : c'.installed = c.installed) : c'.Linked :=
  ⟨hlinks ▸ h.reached, by rw [hlinks, hinstalled, h.last], by rw [hlinks, hinstalled]; exact h.live⟩

theorem follows_of_links {c c' : Caller} (h : c.Linked) (hlinks : c'.links = c.links)
    (hinstalled : c'.installed = c.installed) : c.Follows c' :=
  ⟨linked_of_links h hlinks hinstalled, later_of_links hlinks,
    fun i k hcall => by rwa [call?_of_links hlinks] at hcall⟩

theorem tidy_of_linked {c : Caller} (h : c.Linked) {i : Nat} {l : Link}
    (hl : c.links[i]? = some l) : l.Tidy := by
  obtain ⟨events, rfl⟩ := h.reached l (List.mem_of_getElem? hl)
  exact Link.run_tidy Link.fresh_tidy events

/-- The installed link is there, and was not dropped. -/
theorem installed_link {c : Caller} (h : c.Linked) :
    ∃ l, c.links[c.installed]? = some l ∧ l.dropped = false := by
  have hlt : c.installed < c.links.length := by
    rw [h.last]
    exact Nat.lt_succ_self _
  have hl := List.getElem?_eq_getElem hlt
  exact ⟨_, hl, h.live _ hl⟩

/-! ## Links that last -/

def LinksLast (c c' : Caller) : Prop :=
  ∀ (i : Nat) (l : Link), c.links[i]? = some l → ∃ events, c'.links[i]? = some (l.run events)

theorem linksLast_of_links {c c' : Caller} (h : c'.links = c.links) : c.LinksLast c' :=
  fun _ _ hl => ⟨[], h ▸ hl⟩

theorem linksLast_of_set {c c' : Caller} {i : Nat} {l : Link} {event : LinkEvent}
    (hl : c.links[i]? = some l) (hlinks : c'.links = c.links.set i (l.step event)) :
    c.LinksLast c' := by
  intro j lj hlj
  by_cases hij : i = j
  · subst hij
    obtain rfl : l = lj := Option.some.inj (hl.symm.trans hlj)
    have hlt := (List.getElem?_eq_some_iff.mp hl).1
    exact ⟨[event], by simp [hlinks, hlt, Link.run]⟩
  · exact ⟨[], by simp [hlinks, List.getElem?_set_ne hij, hlj, Link.run]⟩

theorem linksLast_of_append {c c' : Caller} {fresh : List Link}
    (hlinks : c'.links = c.links ++ fresh) : c.LinksLast c' := by
  intro i l hl
  have hlt := (List.getElem?_eq_some_iff.mp hl).1
  exact ⟨[], by rw [hlinks, List.getElem?_append_left hlt, hl, Link.run]⟩

theorem later_of_linksLast {c c' : Caller} (h : c.Linked) (hlast : c.LinksLast c') :
    c.Later c' := by
  intro i k call hcall
  obtain ⟨l, hl, hk⟩ := call?_eq_some_iff.mp hcall
  obtain ⟨events, hl'⟩ := hlast i l hl
  obtain ⟨call', hk', hspec, hended⟩ := Link.run_call (tidy_of_linked h hl).coherent events hk
  exact ⟨call', call?_eq_some_iff.mpr ⟨_, hl', hk'⟩, hspec, hended⟩

/-! ## One link goes on -/

section
variable {c c' : Caller} {i : Nat} {l : Link} {event : LinkEvent}

theorem linked_of_step (h : c.Linked) (hl : c.links[i]? = some l)
    (hlinks : c'.links = c.links.set i (l.step event)) (hinstalled : c'.installed = c.installed)
    (hkept : event = .discard → i ≠ c.installed) : c'.Linked := by
  constructor
  · intro l' hl'
    rcases List.mem_or_eq_of_mem_set (hlinks ▸ hl') with hl' | rfl
    · exact h.reached l' hl'
    · obtain ⟨events, rfl⟩ := h.reached l (List.mem_of_getElem? hl)
      exact ⟨events ++ [event], (Link.run_append _ events [event]).symm⟩
  · simp [hlinks, hinstalled, h.last]
  · intro l' hl'
    rw [hlinks, hinstalled, List.getElem?_set] at hl'
    split at hl'
    · rename_i hi
      split at hl'
      · obtain rfl : l.step event = l' := Option.some.inj hl'
        rw [Link.dropped_of_move (Link.step_move l event) fun hevent => hkept hevent hi]
        exact h.live l (hi ▸ hl)
      · simp at hl'
    · exact h.live l' hl'

theorem follows_of_step (h : c.Linked) (hl : c.links[i]? = some l)
    (hlinks : c'.links = c.links.set i (l.step event)) (hinstalled : c'.installed = c.installed)
    (hkept : event = .discard → i ≠ c.installed)
    (hstart : ∀ method argument want, event ≠ .start method argument want) : c.Follows c' := by
  constructor
  · exact linked_of_step h hl hlinks hinstalled hkept
  · exact later_of_linksLast h (linksLast_of_set hl hlinks)
  · intro j k hcall
    obtain ⟨lj, hlj, hk⟩ := isSome_call?_iff.mp hcall
    apply isSome_call?_iff.mpr
    by_cases hij : i = j
    · subst hij
      have hlt := (List.getElem?_eq_some_iff.mp hl).1
      obtain rfl : l.step event = lj := by simpa [hlinks, hlt] using hlj
      rw [(Link.length_of_move (Link.step_move l event) hstart).1] at hk
      exact ⟨l, hl, hk⟩
    · rw [hlinks, List.getElem?_set_ne hij] at hlj
      exact ⟨lj, hlj, hk⟩

end

theorem follows_onLink {c : Caller} (h : c.Linked) (i : Nat) {event : LinkEvent}
    (hkept : event = .discard → i ≠ c.installed)
    (hstart : ∀ method argument want, event ≠ .start method argument want) :
    c.Follows (c.onLink i event) := by
  unfold onLink
  split
  · exact follows_of_links h rfl rfl
  · rename_i l hl
    exact follows_of_step h hl rfl rfl hkept hstart

theorem links_onLink {c : Caller} {i : Nat} {l : Link} (hl : c.links[i]? = some l)
    (event : LinkEvent) : (c.onLink i event).links[i]? = some (l.step event) := by
  simp only [onLink, hl]
  exact List.getElem?_set_self (List.getElem?_eq_some_iff.mp hl).1

@[simp] theorem onLink_tasks (c : Caller) (i : Nat) (event : LinkEvent) :
    (c.onLink i event).tasks = c.tasks := by
  unfold onLink
  split <;> rfl

theorem follows_install {c : Caller} (h : c.Linked) : c.Follows c.install := by
  have hold : ∀ i, i < c.links.length → c.install.links[i]? = c.links[i]? := fun i hi =>
    List.getElem?_append_left hi
  constructor
  case linked =>
    constructor
    · intro l hl
      rcases List.mem_append.mp hl with hl | hl
      · exact h.reached l hl
      · exact ⟨[], List.mem_singleton.mp hl⟩
    · simp [install]
    · intro l hl
      obtain rfl : l = {} := by simpa [install] using hl.symm
      rfl
  case later => exact later_of_linksLast h (linksLast_of_append rfl)
  case fresh =>
    intro i k hcall
    obtain ⟨l, hl, hk⟩ := isSome_call?_iff.mp hcall
    apply isSome_call?_iff.mpr
    rcases Nat.lt_or_ge i c.links.length with hi | hi
    · exact ⟨l, (hold i hi).symm.trans hl, hk⟩
    · have hmem : l ∈ [({} : Link)] := by
        rw [install, List.getElem?_append_right hi] at hl
        exact List.mem_of_getElem? hl
      obtain rfl := List.mem_singleton.mp hmem
      simp at hk

/-! ## A new call -/

structure Attempted (c c' : Caller) (spec : CallSpec) (k : Nat) : Prop where
  linked : c'.Linked
  later : c.Later c'
  free : c.call? c.installed k = none
  fresh : ∀ i j, (c'.call? i j).isSome = true →
    (c.call? i j).isSome = true ∨ (i = c.installed ∧ j = k)
  made : ∃ call, c'.call? c.installed k = some call ∧ call.spec = spec

theorem attempted_of_links {c c' : Caller} (h : c.Linked) {l : Link} {spec : CallSpec}
    (hl : c.links[c.installed]? = some l)
    (hlinks : c'.links = c.links.set c.installed
      (l.step (.start spec.method spec.argument spec.want)))
    (hinstalled : c'.installed = c.installed) : c.Attempted c' spec l.calls.length := by
  have hlt := (List.getElem?_eq_some_iff.mp hl).1
  obtain ⟨call, hstarted, hmethod, hargument, hwant⟩ :=
    Link.start_started l spec.method spec.argument spec.want
  have hstep : l.step (.start spec.method spec.argument spec.want) =
      l.start spec.method spec.argument spec.want := by simp [Link.step, h.live l hl]
  have hnew : c'.links[c.installed]? = some (l.start spec.method spec.argument spec.want) := by
    simp [hlinks, hlt, hstep]
  constructor
  case linked => exact linked_of_step h hl hlinks hinstalled (by simp)
  case later => exact later_of_linksLast h (linksLast_of_set hl hlinks)
  case free => simp [call?, hl]
  case fresh =>
    intro i j hcall
    obtain ⟨li, hli, hj⟩ := isSome_call?_iff.mp hcall
    by_cases hi : c.installed = i
    · subst hi
      obtain rfl := Option.some.inj (hnew.symm.trans hli)
      rw [hstarted.calls, List.length_append, List.length_singleton] at hj
      by_cases hjl : j < l.calls.length
      · exact .inl (isSome_call?_iff.mpr ⟨l, hl, hjl⟩)
      · exact .inr ⟨rfl, by omega⟩
    · rw [hlinks, List.getElem?_set_ne hi] at hli
      exact .inl (isSome_call?_iff.mpr ⟨li, hli, hj⟩)
  case made =>
    have hcall : c'.call? c.installed l.calls.length = some call :=
      call?_eq_some_iff.mpr ⟨_, hnew, by simp [hstarted.calls]⟩
    exact ⟨call, hcall, by simp [Call.spec, hmethod, hargument, hwant]⟩

theorem attempt_attempted {c : Caller} (h : c.Linked) (t : Nat) (budget : Budget)
    (spec : CallSpec) :
    c.Attempted (c.attempt t budget spec) spec (c.nextCall c.installed) := by
  obtain ⟨l, hl, -⟩ := installed_link h
  have hnext : c.nextCall c.installed = l.calls.length := by simp [nextCall, hl]
  rw [hnext]
  apply attempted_of_links h hl
  · simp [attempt, record, setProgress, onLink, hl]
  · simp [attempt, record, setProgress, onLink, hl]

end Caller

end GameRelay.Outbound
