import GameRelay.Proofs.Caller.Lock

/-!
# Calls under way

A task holds the lock exactly while it is between taking and letting go of it. A
call that is not over is that of the task that holds the lock; so there is one at
most, and it is on the installed link.
-/

set_option autoImplicit false

namespace GameRelay.Outbound

open GameRelay.Frame GameRelay.Json

def Progress.call? : Progress → Option (Nat × Nat)
  | .calling _ i k | .leaving i k => some (i, k)
  | .waiting | .dialing _ | .done _ | .abandoned => none

theorem Progress.holds_of_call? {progress : Progress} {i k : Nat}
    (h : progress.call? = some (i, k)) : progress.holds = true := by
  cases progress <;> simp_all [Progress.call?, Progress.holds]

theorem Call.isOver_iff {c : Call} : c.isOver = true ↔ ∃ o, c.stage = .ended o := by
  unfold Call.isOver
  cases c.stage <;> simp

namespace Caller

/-! ## The lock -/

def Held (c : Caller) : Prop :=
  ∀ t, c.holder = some t → ∃ task, c.tasks[t]? = some task ∧ task.progress.holds = true

section
variable {c c' : Caller} {t : Nat} {task task' : Task}

/-- A task lets go of the lock, takes it, or leaves it where it is. -/
theorem Turn.held (h : Turn c c' t task task') : c'.holder = none ∨
    (c'.holder = some t ∧ task'.progress.holds = true) ∨
    (c'.holder = c.holder ∧ (task.progress.holds = true → task'.progress.holds = true)) := by
  cases h with
  | began _ _ _ _ hholder | beganDial _ _ _ hholder => exact .inr (.inl ⟨hholder, rfl⟩)
  | refused _ _ _ _ hholder | redialed _ _ hholder | gaveUpCall _ _ _ _ hholder =>
    exact .inr (.inr ⟨hholder, fun _ => rfl⟩)
  | gaveUpWaiting hp hholder => exact .inr (.inr ⟨hholder, by simp [hp, Progress.holds]⟩)
  | finished _ _ _ _ _ _ _ hholder | lost _ _ hholder | replaced _ hholder
  | notReplaced _ hholder | gaveUpDial _ _ hholder | left _ _ _ _ _ hholder => exact .inl hholder

end

theorem step_held {c : Caller} (h : c.Held) (event : CallerEvent) : (c.step event).Held := by
  intro t ht
  cases step_turns c event with
  | none htasks hholder =>
    rw [htasks]
    exact h t (hholder ▸ ht)
  | asked what htasks hholder =>
    obtain ⟨task, htask, hholds⟩ := h t (hholder ▸ ht)
    have hlt := (List.getElem?_eq_some_iff.mp htask).1
    exact ⟨task, by rw [htasks, List.getElem?_append_left hlt, htask], hholds⟩
  | went u acting acting' hgoes hturn =>
    rcases hturn.held with hfree | ⟨hheld, hholds⟩ | ⟨hsame, hkept⟩
    · simp [hfree] at ht
    · obtain rfl : u = t := Option.some.inj (hheld.symm.trans ht)
      exact ⟨acting', hgoes.after, hholds⟩
    · obtain ⟨task, htask, hholds⟩ := h t (hsame ▸ ht)
      by_cases htu : t = u
      · subst htu
        obtain rfl : acting = task := Option.some.inj (hgoes.before.symm.trans htask)
        exact ⟨acting', hgoes.after, hkept hholds⟩
      · exact ⟨task, (hgoes.others t htu).trans htask, hholds⟩

theorem holder_iff {c : Caller} (hheld : c.Held) (hplaced : c.Placed) (t : Nat) :
    c.holder = some t ↔ ∃ task, c.tasks[t]? = some task ∧ task.progress.holds = true := by
  constructor
  · exact hheld t
  · rintro ⟨task, ht, hholds⟩
    exact (hplaced t task ht).holder hholds

/-! ## Whose call it is -/

def Attended (c : Caller) : Prop :=
  ∀ i k call, c.call? i k = some call → call.isOver = false →
    ∃ (t : Nat) (task : Task), c.tasks[t]? = some task ∧ task.progress.call? = some (i, k)

section
variable {c c' : Caller} {t : Nat} {task task' : Task} {i k : Nat}

/-- A task stays at its call until the call is over. -/
theorem Turn.attends (h : Turn c c' t task task') (hcall : task.progress.call? = some (i, k)) :
    task'.progress.call? = some (i, k) ∨ ∃ o, c.stage? i k = some (.ended o) := by
  cases h with
  | refused j n hp hs =>
    obtain ⟨rfl, rfl⟩ : j = i ∧ n = k := by simpa [hp, Progress.call?] using hcall
    exact .inr ⟨_, hs⟩
  | finished budget j n o hp hs | left j n o hp hs =>
    obtain ⟨rfl, rfl⟩ : j = i ∧ n = k := by simpa [hp, Progress.call?] using hcall
    exact .inr ⟨_, hs⟩
  | gaveUpCall budget j n hp => exact .inl (by simpa [hp, Progress.call?] using hcall)
  | began _ hp | beganDial hp | redialed _ hp | lost _ hp | replaced hp | notReplaced hp
  | gaveUpWaiting hp | gaveUpDial _ hp => simp [hp, Progress.call?] at hcall

/-- It is at whatever call it has just started. -/
theorem Turn.attempts (h : Turn c c' t task task') (hmem : .attempt i k ∈ task'.history) :
    .attempt i k ∈ task.history ∨ task'.progress.call? = some (i, k) := by
  cases h with
  | began =>
    rcases List.mem_append.mp hmem with hold | hnew
    · exact .inl hold
    · obtain ⟨rfl, rfl⟩ : i = c.installed ∧ k = c.nextCall c.installed := by simpa using hnew
      exact .inr rfl
  | redialed =>
    rcases List.mem_append.mp hmem with hold | hnew
    · exact .inl hold
    · obtain ⟨rfl, rfl⟩ : i = c.links.length ∧ k = 0 := by simpa using hnew
      exact .inr rfl
  | lost | replaced | notReplaced => exact .inl (by simpa using hmem)
  | beganDial | refused | finished | gaveUpWaiting | gaveUpCall | gaveUpDial | left =>
    exact .inl hmem

end

/-- Who has attempted a call that is new is at it. -/
theorem call?_of_attempt {c : Caller} (h : c.Sane) (hplaced : c.Placed) (event : CallerEvent)
    {t i k : Nat} {task' : Task} (hnew : c.call? i k = none)
    (ht' : (c.step event).tasks[t]? = some task') (hmem : .attempt i k ∈ task'.history) :
    task'.progress.call? = some (i, k) := by
  have hold : ∀ task, c.tasks[t]? = some task → .attempt i k ∉ task.history := by
    intro task ht hmem
    obtain ⟨-, -, call, hmade, -⟩ := made_of_course (h.course t task ht) hmem
    simp [hnew] at hmade
  rcases task_of_step hplaced event ht' with ⟨task, ht, hturn⟩ | ⟨ht, -⟩ | ⟨-, what, rfl⟩
  · exact (hturn.attempts hmem).resolve_left (hold task ht)
  · exact absurd hmem (hold task' ht)
  · simp at hmem

theorem step_attended {c : Caller} (h : c.Sane) (hplaced : c.Placed) (ha : c.Attended)
    (event : CallerEvent) : (c.step event).Attended := by
  intro i k call' hcall' hgoing'
  have hlater := later_of_linksLast h.linked (step_relinked c event).linksLast
  cases hcall : c.call? i k with
  | some call =>
    obtain ⟨call'', hcall'', -, hended⟩ := hlater i k call hcall
    obtain rfl : call'' = call' := Option.some.inj (hcall''.symm.trans hcall')
    have hbefore : ∀ o, call.stage ≠ .ended o := by
      intro o ho
      simp [Call.isOver_iff.mpr ⟨o, hended o ho⟩] at hgoing'
    have hgoing : call.isOver = false := by
      by_contra hover
      obtain ⟨o, ho⟩ := Call.isOver_iff.mp (by simpa using hover)
      exact hbefore o ho
    obtain ⟨t, task, ht, hat⟩ := ha i k call hcall hgoing
    rcases step_task hplaced event ht with ⟨task', ht', hturn⟩ | ⟨ht', -⟩
    · rcases hturn.attends hat with hstays | ⟨o, ho⟩
      · exact ⟨t, task', ht', hstays⟩
      · have hstage : c.stage? i k = (c.call? i k).map Call.stage := rfl
        simp [hstage, hcall, hbefore] at ho
    · exact ⟨t, task, ht', hat⟩
  | none =>
    obtain ⟨t, task', ht', hmem⟩ := (step_sane h event).made i k (by simp [hcall'])
    exact ⟨t, task', ht', call?_of_attempt h hplaced event hcall ht' hmem⟩

/-! ## Any moment -/

structure Guarded (c : Caller) : Prop where
  sane : c.Sane
  placed : c.Placed
  held : c.Held
  attended : c.Attended

theorem step_guarded {c : Caller} (h : c.Guarded) (event : CallerEvent) :
    (c.step event).Guarded where
  sane := step_sane h.sane event
  placed := step_placed h.sane.linked.last h.placed event
  held := step_held h.held event
  attended := step_attended h.sane h.placed h.attended event

theorem run_guarded (events : List CallerEvent) {c : Caller} (h : c.Guarded) :
    (c.run events).Guarded := by
  induction events generalizing c with
  | nil => exact h
  | cons event rest ih => exact ih (step_guarded h event)

theorem fresh_guarded : ({} : Caller).Guarded where
  sane := fresh_sane
  placed := fresh_placed
  held := fun _ ht => by simp at ht
  attended := by
    intro i k call hcall
    obtain ⟨l, hl, hk⟩ := call?_eq_some_iff.mp hcall
    obtain rfl : l = {} := List.mem_singleton.mp (List.mem_of_getElem? hl)
    simp at hk

section
variable {c : Caller} {t i k : Nat} {task : Task} {call : Call}

theorem installed_of_call? (h : c.Guarded) (ht : c.tasks[t]? = some task)
    (hat : task.progress.call? = some (i, k)) : i = c.installed := by
  have hstand := h.placed t task ht
  obtain ⟨ask, progress, history⟩ := task
  cases hstand with
  | first k | second i k | leaving k history =>
    obtain ⟨rfl, -⟩ := Prod.mk.inj (Option.some.inj hat)
    rfl
  | waiting | refused | replacing | kept | again | lost | replaced | abandoned =>
    simp [Progress.call?] at hat

/-- Whose call it is that is not over. -/
theorem holder_of_going (h : c.Guarded) (hcall : c.call? i k = some call)
    (hgoing : call.isOver = false) : i = c.installed ∧ ∃ (t : Nat) (task : Task),
      c.holder = some t ∧ c.tasks[t]? = some task ∧ task.progress.call? = some (i, k) := by
  obtain ⟨t, task, ht, hat⟩ := h.attended i k call hcall hgoing
  have hheld := (h.placed t task ht).holder (Progress.holds_of_call? hat)
  exact ⟨installed_of_call? h ht hat, t, task, hheld, ht, hat⟩

/-- The link is replaced only by a task that dials, and so at no call. -/
theorem installed_of_going (h : c.Guarded) (hcall : c.call? i k = some call)
    (hgoing : call.isOver = false) (event : CallerEvent) :
    (c.step event).installed = c.installed := by
  obtain ⟨-, t, task, -, ht, hat⟩ := holder_of_going h hcall hgoing
  rcases step_task h.placed event ht with ⟨task', -, hturn⟩ | ⟨-, hstays⟩
  · cases hturn with
    | redialed _ hp | replaced hp => simp [hp, Progress.call?] at hat
    | began _ _ _ _ _ hinstalled | beganDial _ _ _ _ hinstalled | refused _ _ _ _ _ hinstalled
    | finished _ _ _ _ _ _ _ _ hinstalled | lost _ _ _ hinstalled
    | notReplaced _ _ hinstalled | gaveUpWaiting _ _ hinstalled
    | gaveUpCall _ _ _ _ _ hinstalled | gaveUpDial _ _ _ hinstalled
    | left _ _ _ _ _ _ hinstalled => exact hinstalled
  · exact (hstays (Progress.holds_of_call? hat)).2

/-- While the lock is free no call is under way. -/
theorem over_of_free (h : c.Guarded) (hfree : c.holder = none) {l : Link}
    (hl : c.links[i]? = some l) : ∀ call ∈ l.calls, call.isOver = true := by
  intro call hcall
  obtain ⟨k, hk⟩ := List.mem_iff_getElem?.mp hcall
  by_contra hgoing
  obtain ⟨-, t, task, hheld, -⟩ :=
    holder_of_going h (call?_eq_some_iff.mpr ⟨l, hl, hk⟩) (by simpa using hgoing)
  simp [hfree] at hheld

end

/-! ## One link after the other -/

inductive Allowed (c : Caller) (l : Link) : LinkEvent → Prop where
  | goesOn {event : LinkEvent} : (∀ method argument want, event ≠ .start method argument want) →
      Allowed c l event
  | starts (task : Task) (spec : CallSpec) : task ∈ c.tasks → task.ask.call? = some spec →
      (∀ call ∈ l.calls, call.isOver = true) →
      Allowed c l (.start spec.method spec.argument spec.want)

/-- What holds of a fresh link and is kept by these steps holds of every link. -/
theorem step_links {P : Link → Prop} {c : Caller} (h : c.Guarded) (hfresh : P {})
    (hstep : ∀ earlier event, c.Allowed (({} : Link).run earlier) event →
      P (({} : Link).run earlier) → P ((({} : Link).run earlier).step event))
    (hP : ∀ l ∈ c.links, P l) (event : CallerEvent) : ∀ l ∈ (c.step event).links, P l := by
  intro l' hl'
  cases step_relinked c event with
  | same hlinks => exact hP l' (hlinks ▸ hl')
  | went i l event hl hstart hlinks =>
    rcases List.mem_or_eq_of_mem_set (hlinks ▸ hl') with hl' | rfl
    · exact hP l' hl'
    · have hmem := List.mem_of_getElem? hl
      obtain ⟨earlier, rfl⟩ := h.sane.linked.reached l hmem
      exact hstep earlier event (.goesOn hstart) (hP _ hmem)
  | began task spec l htask hspec hfree hl hlinks =>
    rcases List.mem_or_eq_of_mem_set (hlinks ▸ hl') with hl' | rfl
    · exact hP l' hl'
    · have hmem := List.mem_of_getElem? hl
      obtain ⟨earlier, rfl⟩ := h.sane.linked.reached l hmem
      exact hstep earlier _ (.starts task spec htask hspec (over_of_free h hfree hl)) (hP _ hmem)
  | installed hlinks =>
    rcases List.mem_append.mp (hlinks ▸ hl') with hl' | hl'
    · exact hP l' hl'
    · exact List.mem_singleton.mp hl' ▸ hfresh
  | redialed task spec htask hspec hlinks =>
    rcases List.mem_append.mp (hlinks ▸ hl') with hl' | hl'
    · exact hP l' hl'
    · obtain rfl := List.mem_singleton.mp hl'
      exact hstep [] _ (.starts task spec htask hspec (by simp [Link.run])) hfresh

end Caller

end GameRelay.Outbound
