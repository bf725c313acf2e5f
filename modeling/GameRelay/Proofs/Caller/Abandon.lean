import GameRelay.Proofs.Caller.Exclusive
import GameRelay.Proofs.Caller.OneCall

/-!
# Giving a task up

A task can be given up where it waits: for the lock, for the answer to its call, or
for a dial. It takes nothing with it but its call's entry in the table and the lock.
-/

set_option autoImplicit false

namespace GameRelay.Outbound

open GameRelay.Frame GameRelay.Json GameRelay.Text

theorem Slot.givenUp_of_change {l l' : Link} {s s' : Slot} (h : Change l l' s s')
    (hs : s.call.isGivenUp = true) : s'.call.isGivenUp = true := by
  cases h with
  | refused _ _ _ hstage | registered _ _ _ hstage | queued _ _ hstage | notQueued _ _ _ hstage
  | collected _ _ _ hstage | disconnected _ _ hstage => simp [Call.isGivenUp, hstage] at hs
  | left outcome _ _ hstage => cases outcome <;> simp_all [Call.isGivenUp]
  | same | overheard | answered | cutOff | passedBy | handed | pushedOut | dropped => exact hs
  | abandoned => rfl

namespace Link

theorem run_isGivenUp (events : List LinkEvent) {l : Link} (h : l.Coherent) {k : Nat} {c : Call}
    (hk : l.calls[k]? = some c) (hgiven : c.isGivenUp = true) :
    ∃ c', (l.run events).calls[k]? = some c' ∧ c'.isGivenUp = true := by
  induction events generalizing l c with
  | nil => exact ⟨c, hk, hgiven⟩
  | cons event rest ih =>
    obtain ⟨c', hk', hchange⟩ := step_changes h event k c hk
    exact ih (step_coherent h event) hk' (Slot.givenUp_of_change hchange hgiven)

def Undisturbed (l l' : Link) : Prop := l' = { l with calls := l'.calls, table := l'.table }

theorem Undisturbed.trans {l l' l'' : Link} (h : l.Undisturbed l') (h' : l'.Undisturbed l'') :
    l.Undisturbed l'' := by
  unfold Undisturbed at h h'
  rw [h] at h'
  exact h'

theorem undisturbed_of_move {l l' : Link} {k : Nat} {step : CallStep}
    (hstep : step = .abandon ∨ step = .leave) (h : l.Move (.call k step) l') :
    l.Undisturbed l' := by
  cases h with
  | none | abandoned => rfl
  | left k c =>
    unfold Undisturbed cancel
    split <;> rfl
  | refused | registered | queued | notQueued | collected | disconnected => simp at hstep

theorem table_of_over {l : Link} (h : l.Coherent)
    (hover : ∀ call ∈ l.calls, call.isOver = true) : l.table = [] := by
  rw [List.eq_nil_iff_forall_not_mem]
  intro e he
  obtain ⟨call, hk, -, hentered⟩ := h.entries e he
  have hout := Call.isEntered_of_isOver (hover call (List.mem_of_getElem? hk))
  simp [hentered] at hout

end Link

namespace Caller

/-! ## What giving up leaves alone -/

structure Quiet (c c' : Caller) : Prop where
  installed : c'.installed = c.installed
  length : c'.links.length = c.links.length
  links : ∀ (i : Nat) (l : Link), c.links[i]? = some l →
    ∃ l', c'.links[i]? = some l' ∧ l.Undisturbed l'

theorem quiet_of_links {c c' : Caller} (hinstalled : c'.installed = c.installed)
    (hlinks : c'.links = c.links) : c.Quiet c' :=
  ⟨hinstalled, by rw [hlinks], fun _ l hl => ⟨l, hlinks ▸ hl, rfl⟩⟩

theorem Quiet.trans {c c' c'' : Caller} (h : c.Quiet c') (h' : c'.Quiet c'') : c.Quiet c'' := by
  refine ⟨h'.installed.trans h.installed, h'.length.trans h.length, ?_⟩
  intro i l hl
  obtain ⟨l', hl', hsame⟩ := h.links i l hl
  obtain ⟨l'', hl'', hsame'⟩ := h'.links i l' hl'
  exact ⟨l'', hl'', hsame.trans hsame'⟩

theorem quiet_onLink (c : Caller) (i : Nat) {event : LinkEvent}
    (hevent : ∀ l : Link, l.Undisturbed (l.step event)) : c.Quiet (c.onLink i event) := by
  unfold onLink
  split
  · exact quiet_of_links rfl rfl
  · rename_i l hl
    refine ⟨rfl, List.length_set, ?_⟩
    intro j lj hj
    by_cases hij : i = j
    · subst hij
      obtain rfl := Option.some.inj (hl.symm.trans hj)
      have hlt := (List.getElem?_eq_some_iff.mp hl).1
      exact ⟨l.step event, List.getElem?_set_self hlt, hevent l⟩
    · exact ⟨lj, by rw [List.getElem?_set_ne hij, hj], rfl⟩

theorem quiet_call (c : Caller) (i k : Nat) {step : CallStep}
    (hstep : step = .abandon ∨ step = .leave) : c.Quiet (c.onLink i (.call k step)) :=
  quiet_onLink c i fun l => Link.undisturbed_of_move hstep (Link.step_move l (.call k step))

theorem abandon_quiet (c : Caller) (t : Nat) : c.Quiet (c.step (.abandon t)) := by
  simp only [step, onTask]
  split
  · rename_i task _
    unfold abandon
    split
    · exact quiet_of_links rfl rfl
    · split
      · exact (quiet_call c _ _ (.inl rfl)).trans (quiet_of_links rfl rfl)
      · exact quiet_of_links rfl rfl
    · exact quiet_of_links rfl rfl
    · exact quiet_of_links rfl rfl
  · exact quiet_of_links rfl rfl

section
variable {c : Caller} {t : Nat} {task : Task}

/-- The steps that a task takes after it was given up. -/
theorem leave_quiet (ht : c.tasks[t]? = some task)
    (hp : (∃ i k, task.progress = .leaving i k) ∨ task.progress = .abandoned) :
    c.Quiet (c.step (.advance t)) := by
  simp only [step, onTask, ht, advance]
  rcases hp with ⟨i, k, hp⟩ | hp
  · simp only [hp]
    split
    · exact quiet_call c i k (.inr rfl)
    · exact quiet_of_links rfl rfl
    · exact quiet_of_links rfl rfl
  · simp only [hp]
    exact quiet_of_links rfl rfl

/-! ## Leaving a call -/

def Leaving (c : Caller) : Prop :=
  ∀ (t : Nat) (task : Task) (i k : Nat), c.tasks[t]? = some task →
    task.progress = .leaving i k → ∃ call, c.call? i k = some call ∧ call.isGivenUp = true

theorem step_leaving (h : c.Guarded) (hleaving : c.Leaving) (event : CallerEvent) :
    (c.step event).Leaving := by
  intro t task' i k ht' hp'
  rcases task_of_step h.placed event ht' with ⟨task, ht, hturn⟩ | ⟨ht, -⟩ | ⟨-, what, rfl⟩
  · cases hturn with
    | gaveUpCall budget j n hp _ _ hs =>
      obtain ⟨rfl, rfl⟩ : j = i ∧ n = k := by simpa using hp'
      obtain ⟨l, call, hl, hk, hstage⟩ := call_of_stage? hs
      exact ⟨call, call?_eq_some_iff.mpr ⟨l, hl, hk⟩, by simp [Call.isGivenUp, hstage]⟩
    | began | beganDial | refused | finished | redialed | lost | replaced | notReplaced
    | gaveUpWaiting | gaveUpDial | left => simp at hp'
  · obtain ⟨call, hcall, hgiven⟩ := hleaving t task' i k ht hp'
    obtain ⟨l, hl, hk⟩ := call?_eq_some_iff.mp hcall
    obtain ⟨events, hl'⟩ := (step_lasts c event).links i l hl
    obtain ⟨call', hk', hgiven'⟩ :=
      Link.run_isGivenUp events (tidy_of_linked h.sane.linked hl).coherent hk hgiven
    exact ⟨call', call?_eq_some_iff.mpr ⟨_, hl', hk'⟩, hgiven'⟩
  · simp at hp'

theorem run_leaving (events : List CallerEvent) {c : Caller} (h : c.Guarded)
    (hleaving : c.Leaving) : (c.run events).Leaving := by
  induction events generalizing c with
  | nil => exact hleaving
  | cons event rest ih => exact ih (step_guarded h event) (step_leaving h hleaving event)

theorem fresh_leaving : ({} : Caller).Leaving := fun _ _ _ _ h => by simp at h

/-! ## Giving up where a task waits -/

inductive Awaits (c : Caller) : Progress → Prop where
  | lock : Awaits c .waiting
  | answer (budget : Budget) (i k : Nat) : c.stage? i k = some .waiting →
      Awaits c (.calling budget i k)
  | dial (budget : Option Budget) : Awaits c (.dialing budget)

def leaveCall (t : Nat) : List CallerEvent := [.advance t, .advance t]

def giveUp (t : Nat) : List CallerEvent := .abandon t :: leaveCall t

theorem step_abandoned (ht : c.tasks[t]? = some task) (hp : task.progress = .abandoned) :
    c.step (.advance t) = c := by
  simp [step, onTask, ht, advance, hp]

theorem Goes.onLink {c' : Caller} {task' : Task} (h : Goes c c' t task task') (i : Nat)
    (event : LinkEvent) : Goes c (c'.onLink i event) t task task' :=
  h.trans (goes_of_tasks h.after (onLink_tasks c' i event))

structure GivenUp (c : Caller) (t : Nat) (task : Task) (c' : Caller) : Prop where
  gone : Goes c c' t task { task with progress := .abandoned }
  /-- The lock is free, unless the task was waiting for it and somebody else has it. -/
  lock : c'.holder = if task.progress.holds then none else c.holder
  quiet : c.Quiet c'
  /-- No table has an entry, if the task had the lock. -/
  cleared : task.progress.holds = true → ∀ l ∈ c'.links, l.table = []

theorem cleared_of_free (h : c.Guarded) (hfree : c.holder = none) :
    ∀ l ∈ c.links, l.table = [] := by
  intro l hl
  obtain ⟨i, hi⟩ := List.mem_iff_getElem?.mp hl
  exact Link.table_of_over (tidy_of_linked h.sane.linked hi).coherent (over_of_free h hfree hi)

theorem givenUp_of_free {c' : Caller} (h' : c'.Guarded) (hholds : task.progress.holds = true)
    (hgone : Goes c c' t task { task with progress := .abandoned }) (hfree : c'.holder = none)
    (hquiet : c.Quiet c') : c.GivenUp t task c' :=
  ⟨hgone, by rw [hfree, if_pos hholds], hquiet, fun _ => cleared_of_free h' hfree⟩

/-- Once the entry is out of the table the task lets go of the lock. -/
theorem givenUp_of_ended (h : c.Guarded) (ht : c.tasks[t]? = some task) {i k : Nat}
    (hp : task.progress = .leaving i k) {o : Option Outcome}
    (hs : c.stage? i k = some (.ended o)) : c.GivenUp t task (c.step (.advance t)) := by
  have hrelease : c.step (.advance t) = c.release t .abandoned := by
    simp [step, onTask, ht, advance, hp, hs]
  apply givenUp_of_free (step_guarded h (.advance t)) (by simp [hp, Progress.holds])
  · exact hrelease ▸ goes_release ht .abandoned
  · rw [hrelease]
    rfl
  · exact leave_quiet ht (.inl ⟨i, k, hp⟩)

/-- Its own steps take a task that leaves its call to the end, wherever it is with that. -/
theorem givenUp_of_leaving (h : c.Guarded) (hleaving : c.Leaving) (ht : c.tasks[t]? = some task)
    {i k : Nat} (hp : task.progress = .leaving i k) :
    c.GivenUp t task (c.run (leaveCall t)) := by
  obtain ⟨call, hcall, hgiven⟩ := hleaving t task i k ht hp
  obtain ⟨l, hl, hk⟩ := call?_eq_some_iff.mp hcall
  have hs := stage?_of_call hl hk
  cases hstage : call.stage with
  | numbered | registered | waiting => simp [Call.isGivenUp, hstage] at hgiven
  | ended o =>
    have hgone := givenUp_of_ended h ht hp (hs.trans (congrArg some hstage))
    rw [leaveCall, run, run, step_abandoned hgone.gone.after rfl, run]
    exact hgone
  | leaving o =>
    rw [hstage] at hs
    have hleave : c.step (.advance t) = c.onLink i (.call k .leave) := by
      simp [step, onTask, ht, advance, hp, hs]
    have hgoes := (goes_of_tasks ht rfl).onLink i (.call k .leave)
    obtain ⟨ended, hk', hended⟩ :=
      Link.leave_stage (tidy_of_linked h.sane.linked hl).coherent hk hstage
    have hs' := stage?_of_call (links_onLink hl (.call k .leave)) hk'
    have hguarded := step_guarded h (.advance t)
    rw [leaveCall, run, run, run]
    rw [hleave] at hguarded ⊢
    have hgone := givenUp_of_ended hguarded hgoes.after hp (hs'.trans (congrArg some hended))
    have hquiet := (quiet_call c i k (.inr rfl)).trans hgone.quiet
    exact givenUp_of_free (step_guarded hguarded (.advance t)) (by simp [hp, Progress.holds])
      (hgoes.trans hgone.gone) (by simp [hgone.lock, hp, Progress.holds]) hquiet

theorem givenUp_of_awaits (h : c.Guarded) (hleaving : c.Leaving) (ht : c.tasks[t]? = some task)
    (ha : c.Awaits task.progress) : c.GivenUp t task (c.run (giveUp t)) := by
  have hguarded := step_guarded h (.abandon t)
  have hquiet := abandon_quiet c t
  -- A task that is at no call is given up in one step.
  have hone : ∀ {c₁ : Caller}, c.step (.abandon t) = c₁ →
      Goes c c₁ t task { task with progress := .abandoned } → c.run (giveUp t) = c₁ := by
    intro c₁ hstep hgoes
    rw [giveUp, leaveCall, run, hstep, run, step_abandoned hgoes.after rfl, run,
      step_abandoned hgoes.after rfl, run]
  obtain ⟨ask, progress, history⟩ := task
  cases ha with
  | lock =>
    have hstep : c.step (.abandon t) = c.setProgress t .abandoned := by
      simp [step, onTask, ht, abandon]
    have hgoes := goes_setProgress ht .abandoned
    rw [hone hstep hgoes]
    exact ⟨hgoes, rfl, hstep ▸ hquiet, by simp [Progress.holds]⟩
  | dial budget =>
    have hstep : c.step (.abandon t) = c.release t .abandoned := by
      simp [step, onTask, ht, abandon]
    have hgoes := goes_release ht .abandoned
    rw [hone hstep hgoes]
    exact givenUp_of_free (hstep ▸ hguarded) rfl hgoes rfl (hstep ▸ hquiet)
  | answer budget i k hs =>
    have hstep : c.step (.abandon t) =
        (c.onLink i (.call k .abandon)).setProgress t (.leaving i k) := by
      simp [step, onTask, ht, abandon, hs]
    have hgoes := (goes_of_tasks ht rfl).onLink i (.call k .abandon)
    have hgoes := hgoes.trans (goes_setProgress hgoes.after (.leaving i k))
    have hleaving' := step_leaving h hleaving (.abandon t)
    rw [giveUp, run]
    rw [← hstep] at hgoes
    have hgone := givenUp_of_leaving hguarded hleaving' hgoes.after rfl
    exact givenUp_of_free (run_guarded (leaveCall t) hguarded) rfl (hgoes.trans hgone.gone)
      hgone.lock (hquiet.trans hgone.quiet)

/-- The step with which a task that had the lock is gone leaves the lock free. -/
theorem free_of_gone (h : c.Guarded) (event : CallerEvent) (ht : c.tasks[t]? = some task)
    (hholds : task.progress.holds = true) {task' : Task}
    (ht' : (c.step event).tasks[t]? = some task') (hp : task'.progress = .abandoned) :
    (c.step event).holder = none := by
  rcases step_task h.placed event ht with ⟨task'', ht'', hturn⟩ | ⟨hsame, -⟩
  · obtain rfl := Option.some.inj (ht''.symm.trans ht')
    cases hturn with
    | gaveUpDial _ _ hfree | left _ _ _ _ _ hfree => exact hfree
    | gaveUpWaiting hwaiting => simp [hwaiting, Progress.holds] at hholds
    | began | beganDial | refused | finished | redialed | lost | replaced | notReplaced
    | gaveUpCall => simp at hp
  · obtain rfl := Option.some.inj (hsame.symm.trans ht')
    simp [hp, Progress.holds] at hholds

end

end Caller

end GameRelay.Outbound
