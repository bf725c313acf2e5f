import GameRelay.Proofs.Caller.Turn

/-!
# What lasts

`Relinked` lists all that one step of a caller can do to its links: one goes on, a
call starts on the installed one, or a new link comes in. So every link goes on from
where it was, and tasks keep what they are for and what they have done.
-/

set_option autoImplicit false

namespace GameRelay.Outbound

open GameRelay.Frame GameRelay.Json

namespace Caller

/-! ## What becomes of the links -/

inductive Relinked (c c' : Caller) : Prop where
  | same : c'.links = c.links → Relinked c c'
  | went (i : Nat) (l : Link) (event : LinkEvent) : c.links[i]? = some l →
      (∀ method argument want, event ≠ .start method argument want) →
      c'.links = c.links.set i (l.step event) → Relinked c c'
  | began (task : Task) (spec : CallSpec) (l : Link) : task ∈ c.tasks →
      task.ask.call? = some spec → c.holder = none → c.links[c.installed]? = some l →
      c'.links = c.links.set c.installed
        (l.step (.start spec.method spec.argument spec.want)) → Relinked c c'
  | installed : c'.links = c.links ++ [({} : Link)] → Relinked c c'
  | redialed (task : Task) (spec : CallSpec) : task ∈ c.tasks → task.ask.call? = some spec →
      c'.links = c.links ++ [({} : Link).step (.start spec.method spec.argument spec.want)] →
      Relinked c c'

theorem relinked_onLink (c : Caller) (i : Nat) {event : LinkEvent}
    (hstart : ∀ method argument want, event ≠ .start method argument want) {c' : Caller}
    (hlinks : c'.links = (c.onLink i event).links) : Relinked c c' := by
  unfold onLink at hlinks
  split at hlinks
  · exact .same hlinks
  · rename_i l hl
    exact .went i l event hl hstart hlinks

theorem links_settle (c : Caller) (t : Nat) (method : String) (budget : Budget)
    (outcome : Outcome) : (c.settle t method budget outcome).links = c.links := by
  cases outcome with
  | ok v => rfl
  | error error =>
    simp only [settle]
    split <;> rfl

section
variable {c : Caller} {t : Nat} {task : Task}

theorem acquire_relinked (ht : task ∈ c.tasks) (hfree : c.holder = none) :
    Relinked c (c.acquire t task) := by
  unfold acquire
  split
  · rename_i spec hspec
    cases hl : c.links[c.installed]? with
    | none => exact .same (by simp [attempt, record, setProgress, onLink, hl])
    | some l =>
      exact .began task spec l ht hspec hfree hl
        (by simp [attempt, record, setProgress, onLink, hl])
  · exact .same rfl

theorem advance_relinked : Relinked c (c.advance t task) := by
  unfold advance
  split
  · split
    · split
      · exact .same (links_settle c t _ _ _)
      · exact .same rfl
    · split
      · exact relinked_onLink c _ (by simp) rfl
      · exact .same rfl
    · exact .same rfl
  · split
    · exact relinked_onLink c _ (by simp) rfl
    · exact .same rfl
    · exact .same rfl
  · exact .same rfl

theorem dialed_relinked (ht : task ∈ c.tasks) (result : Except RelayError Unit) :
    Relinked c (c.dialed t task result) := by
  unfold dialed
  split
  · rename_i budget spec _ hspec
    cases result with
    | ok =>
      exact .redialed task spec ht hspec
        (by simp [attempt, record, setProgress, onLink, install, report])
    | error error => exact .same rfl
  · cases result with
    | ok => exact .installed rfl
    | error error => exact .same rfl
  · exact .same rfl

theorem abandon_relinked : Relinked c (c.abandon t task) := by
  unfold abandon
  split
  · exact .same rfl
  · split
    · exact relinked_onLink c _ (by simp) rfl
    · exact .same rfl
  · exact .same rfl
  · exact .same rfl

end

theorem onTask_relinked (c : Caller) (t : Nat) {f : Task → Caller}
    (hf : ∀ task ∈ c.tasks, Relinked c (f task)) : Relinked c (c.onTask t f) := by
  unfold onTask
  split
  · rename_i task ht
    exact hf task (List.mem_of_getElem? ht)
  · exact .same rfl

theorem step_relinked (c : Caller) (event : CallerEvent) : Relinked c (c.step event) := by
  cases event with
  | ask what => exact .same rfl
  | acquire t =>
    apply onTask_relinked c t
    intro task ht
    split
    · rename_i hfree
      exact acquire_relinked ht hfree
    · exact .same rfl
  | advance t => exact onTask_relinked c t fun task _ => advance_relinked
  | dialed t result => exact onTask_relinked c t fun task ht => dialed_relinked ht result
  | abandon t => exact onTask_relinked c t fun task _ => abandon_relinked
  | transport i event => exact relinked_onLink c i (by simp) rfl
  | reap i =>
    simp only [step]
    split
    · exact .same rfl
    · exact relinked_onLink c i (by simp) rfl

/-! ## What lasts -/

theorem Turn.lasts {c c' : Caller} {t : Nat} {task task' : Task} (h : Turn c c' t task task') :
    task'.ask = task.ask ∧ task.history <+: task'.history := by
  cases h with
  | began | redialed | lost | replaced | notReplaced => exact ⟨rfl, List.prefix_append _ _⟩
  | beganDial | refused | finished | gaveUpWaiting | gaveUpCall | gaveUpDial | left =>
    exact ⟨rfl, List.prefix_rfl⟩

structure Lasts (c c' : Caller) : Prop where
  links : c.LinksLast c'
  tasks : ∀ (t : Nat) (task : Task), c.tasks[t]? = some task → ∃ task', c'.tasks[t]? = some task' ∧
    task'.ask = task.ask ∧ task.history <+: task'.history

theorem LinksLast.trans {c c' c'' : Caller} (h : c.LinksLast c') (h' : c'.LinksLast c'') :
    c.LinksLast c'' := by
  intro i l hl
  obtain ⟨events, hevents⟩ := h i l hl
  obtain ⟨more, hmore⟩ := h' i _ hevents
  exact ⟨events ++ more, by rw [hmore, Link.run_append]⟩

theorem Relinked.linksLast {c c' : Caller} (h : Relinked c c') : c.LinksLast c' := by
  cases h with
  | same hlinks => exact linksLast_of_links hlinks
  | went _ _ _ hl _ hlinks => exact linksLast_of_set hl hlinks
  | began _ _ _ _ _ _ hl hlinks => exact linksLast_of_set hl hlinks
  | installed hlinks | redialed _ _ _ _ hlinks => exact linksLast_of_append hlinks

theorem step_lasts (c : Caller) (event : CallerEvent) : c.Lasts (c.step event) := by
  refine ⟨(step_relinked c event).linksLast, ?_⟩
  intro u other hu
  cases step_turns c event with
  | none htasks => exact ⟨other, htasks ▸ hu, rfl, List.prefix_rfl⟩
  | asked what htasks =>
    have hlt := (List.getElem?_eq_some_iff.mp hu).1
    exact ⟨other, by rw [htasks, List.getElem?_append_left hlt, hu], rfl, List.prefix_rfl⟩
  | went t task task' hgoes hturn =>
    by_cases hut : u = t
    · subst hut
      obtain rfl : task = other := Option.some.inj (hgoes.before.symm.trans hu)
      exact ⟨task', hgoes.after, hturn.lasts⟩
    · exact ⟨other, (hgoes.others u hut).trans hu, rfl, List.prefix_rfl⟩

theorem Lasts.trans {c c' c'' : Caller} (h : c.Lasts c') (h' : c'.Lasts c'') : c.Lasts c'' := by
  refine ⟨LinksLast.trans h.links h'.links, ?_⟩
  intro t task ht
  obtain ⟨task', ht', hask, hhistory⟩ := h.tasks t task ht
  obtain ⟨task'', ht'', hask', hhistory'⟩ := h'.tasks t task' ht'
  exact ⟨task'', ht'', hask'.trans hask, hhistory.trans hhistory'⟩

theorem run_lasts (c : Caller) (events : List CallerEvent) : c.Lasts (c.run events) := by
  induction events generalizing c with
  | nil => exact ⟨linksLast_of_links rfl, fun t task ht => ⟨task, ht, rfl, List.prefix_rfl⟩⟩
  | cons event rest ih => exact (step_lasts c event).trans (ih _)

end Caller

end GameRelay.Outbound
