import GameRelay.Proofs.Caller.Steps

/-!
# One step of one task

`Turn` lists all that one step of a caller can do to a task, to the lock and to
the number of the installed link, so that a fact about tasks is proved by cases
on it. A step that is no task's own leaves all three as they are.
-/

set_option autoImplicit false

namespace GameRelay.Outbound

open GameRelay.Frame GameRelay.Json

namespace Caller

inductive Turn (c c' : Caller) (t : Nat) (task : Task) : Task → Prop where
  | began (spec : CallSpec) : task.progress = .waiting → c.holder = none →
      task.ask.call? = some spec → c'.holder = some t → c'.installed = c.installed →
      Turn c c' t task
        { task with
          progress := .calling .firstAttempt c.installed (c.nextCall c.installed)
          history := task.history ++ [.attempt c.installed (c.nextCall c.installed)] }
  | beganDial : task.progress = .waiting → c.holder = none → task.ask.call? = none →
      c'.holder = some t → c'.installed = c.installed →
      Turn c c' t task { task with progress := .dialing none }
  | refused (i k : Nat) : task.progress = .calling .firstAttempt i k →
      c.stage? i k = some (.ended (some (.error .shutdown))) → c'.holder = c.holder →
      c'.installed = c.installed →
      Turn c c' t task { task with progress := .dialing (some .retried) }
  | finished (budget : Budget) (i k : Nat) (o : Outcome) : task.progress = .calling budget i k →
      c.stage? i k = some (.ended (some o)) →
      (budget = .firstAttempt → o ≠ .error .shutdown) → c'.holder = none →
      c'.installed = c.installed →
      Turn c c' t task { task with progress := .done (.outcome o) }
  | redialed (budget : Budget) : task.progress = .dialing (some budget) → c'.holder = c.holder →
      c'.installed = c.links.length →
      Turn c c' t task
        { task with
          progress := .calling budget c.links.length 0
          history := task.history ++ [.dial true, .attempt c.links.length 0] }
  | lost (budget : Budget) : task.progress = .dialing (some budget) → c'.holder = none →
      c'.installed = c.installed →
      Turn c c' t task
        { task with
          progress := .done (.outcome (.error .lostConnection))
          history := task.history ++ [.dial false] }
  | replaced : task.progress = .dialing none → c'.holder = none →
      c'.installed = c.links.length →
      Turn c c' t task
        { task with progress := .done (.connected true), history := task.history ++ [.dial true] }
  | notReplaced : task.progress = .dialing none → c'.holder = none → c'.installed = c.installed →
      Turn c c' t task
        { task with progress := .done (.connected false), history := task.history ++ [.dial false] }
  | gaveUpWaiting : task.progress = .waiting → c'.holder = c.holder → c'.installed = c.installed →
      Turn c c' t task { task with progress := .abandoned }
  | gaveUpCall (budget : Budget) (i k : Nat) : task.progress = .calling budget i k →
      c'.holder = c.holder → c'.installed = c.installed →
      c'.stage? i k = some (.leaving none) → Turn c c' t task { task with progress := .leaving i k }
  | gaveUpDial (budget : Option Budget) : task.progress = .dialing budget → c'.holder = none →
      c'.installed = c.installed → Turn c c' t task { task with progress := .abandoned }
  | left (i k : Nat) (o : Option Outcome) : task.progress = .leaving i k →
      c.stage? i k = some (.ended o) → c'.holder = none → c'.installed = c.installed →
      Turn c c' t task { task with progress := .abandoned }

inductive Turns (c c' : Caller) : Prop where
  | none : c'.tasks = c.tasks → c'.holder = c.holder → c'.installed = c.installed → Turns c c'
  | asked (what : Ask) : c'.tasks = c.tasks ++ [{ ask := what }] → c'.holder = c.holder →
      c'.installed = c.installed → Turns c c'
  | went (t : Nat) (task task' : Task) : Goes c c' t task task' → Turn c c' t task task' →
      Turns c c'

@[simp] theorem onLink_holder (c : Caller) (i : Nat) (event : LinkEvent) :
    (c.onLink i event).holder = c.holder := by
  unfold onLink
  split <;> rfl

@[simp] theorem onLink_installed (c : Caller) (i : Nat) (event : LinkEvent) :
    (c.onLink i event).installed = c.installed := by
  unfold onLink
  split <;> rfl

theorem turns_onLink (c : Caller) (i : Nat) (event : LinkEvent) : Turns c (c.onLink i event) :=
  .none (onLink_tasks c i event) (onLink_holder c i event) (onLink_installed c i event)

theorem turns_self (c : Caller) : Turns c c := .none rfl rfl rfl

@[simp] theorem attempt_holder (c : Caller) (t : Nat) (budget : Budget) (spec : CallSpec) :
    (c.attempt t budget spec).holder = c.holder := by
  simp [attempt, record, setProgress]

@[simp] theorem attempt_installed (c : Caller) (t : Nat) (budget : Budget) (spec : CallSpec) :
    (c.attempt t budget spec).installed = c.installed := by
  simp [attempt, record, setProgress]

section
variable {c : Caller} {t : Nat} {task : Task}

theorem acquire_turns (ht : c.tasks[t]? = some task) (hp : task.progress = .waiting)
    (hfree : c.holder = none) : Turns c (c.acquire t task) := by
  have hgoes : Goes c { c with holder := some t } t task task := goes_of_tasks ht rfl
  unfold acquire
  split
  · rename_i spec hspec
    exact .went t task _ (hgoes.trans (goes_attempt hgoes.after .firstAttempt spec))
      (.began spec hp hfree hspec (by simp) (by simp))
  · rename_i hspec
    exact .went t task _ (hgoes.trans (goes_setProgress hgoes.after _))
      (.beganDial hp hfree hspec rfl rfl)

theorem settle_turns (ht : c.tasks[t]? = some task) {budget : Budget} {i k : Nat}
    {outcome : Outcome} (method : String) (hp : task.progress = .calling budget i k)
    (hs : c.stage? i k = some (.ended (some outcome))) :
    Turns c (c.settle t method budget outcome) := by
  have hdone : ∀ c₁ : Caller, c₁.tasks = c.tasks → c₁.installed = c.installed →
      (budget = .firstAttempt → outcome ≠ .error .shutdown) →
      Turns c (c₁.release t (.done (.outcome outcome))) := by
    intro c₁ htasks hinstalled hne
    have hgoes := goes_of_tasks ht htasks
    exact .went t task _ (hgoes.trans (goes_release hgoes.after _))
      (.finished budget i k outcome hp hs hne rfl hinstalled)
  cases outcome with
  | ok v => exact hdone c rfl rfl (by simp)
  | error error =>
    simp only [settle]
    split
    · rename_i budget' hafter
      obtain ⟨rfl, rfl, rfl⟩ := afterFailure_reconnect hafter
      exact .went t task _ (goes_setProgress ht _) (.refused i k hp hs rfl rfl)
    · rename_i budget' error' hafter
      obtain rfl := afterFailure_fail hafter
      apply hdone (c.report (.callFailed method error')) rfl rfl
      rintro rfl hshutdown
      rw [Except.error.inj hshutdown] at hafter
      simp [Budget.afterFailure] at hafter

theorem advance_turns (ht : c.tasks[t]? = some task) : Turns c (c.advance t task) := by
  unfold advance
  split
  · rename_i budget i k hp
    split
    · rename_i outcome hs
      split
      · exact settle_turns ht _ hp hs
      · exact turns_self c
    · split
      · exact turns_onLink c i _
      · exact turns_self c
    · exact turns_self c
  · rename_i i k hp
    split
    · exact turns_onLink c i _
    · rename_i o hs
      exact .went t task _ (goes_release ht _) (.left i k o hp hs rfl rfl)
    · exact turns_self c
  · exact turns_self c

/-- No call was made on a link that has just been installed. -/
theorem nextCall_install (c : Caller) : c.install.nextCall c.install.installed = 0 := by
  simp [nextCall, install]

theorem dialed_turns (ht : c.tasks[t]? = some task) (result : Except RelayError Unit) :
    Turns c (c.dialed t task result) := by
  unfold dialed
  split
  · rename_i budget spec hp hspec
    cases result with
    | ok =>
      have hrecord := goes_record ht (.dial true)
      have hinstall : Goes c ((c.record t (.dial true)).install.report .reconnected) t task _ :=
        hrecord.trans (goes_of_tasks hrecord.after rfl)
      have hgoes := hinstall.trans (goes_attempt hinstall.after budget spec)
      have hzero : ((c.record t (.dial true)).install.report .reconnected).nextCall
          c.links.length = 0 := nextCall_install (c.record t (.dial true))
      have hturn : Turn c (((c.record t (.dial true)).install.report .reconnected).attempt t
          budget spec) t task _ := .redialed budget hp (attempt_holder _ _ _ _)
            (attempt_installed _ _ _ _)
      refine .went t task _ hgoes ?_
      have hinstalled : ((c.record t (.dial true)).install.report .reconnected).installed =
          c.links.length := rfl
      simpa [hinstalled, hzero] using hturn
    | error error =>
      exact .went t task _ (goes_dialed ht (.dial false) _ rfl) (.lost budget hp rfl rfl)
  · rename_i hp
    cases result with
    | ok =>
      exact .went t task _ (goes_dialed ht (.dial true) _ rfl) (.replaced hp rfl rfl)
    | error error =>
      exact .went t task _ (goes_dialed ht (.dial false) _ rfl) (.notReplaced hp rfl rfl)
  · exact turns_self c

/-- A call that waits is given up. -/
theorem stage?_abandon {i k : Nat} (hs : c.stage? i k = some .waiting) :
    (c.onLink i (.call k .abandon)).stage? i k = some (.leaving none) := by
  obtain ⟨l, call, hl, hk, hstage⟩ := call_of_stage? hs
  have hk' : (l.step (.call k .abandon)).calls[k]? =
      some { call with stage := .leaving none } := by
    simp only [Link.step, Link.callStep, hk, hstage]
    exact Link.setStage_call l _ hk
  exact stage?_of_call (links_onLink hl _) hk'

theorem abandon_turns (ht : c.tasks[t]? = some task) : Turns c (c.abandon t task) := by
  unfold abandon
  split
  · rename_i hp
    exact .went t task _ (goes_setProgress ht _) (.gaveUpWaiting hp rfl rfl)
  · rename_i budget i k hp
    split
    · rename_i hs
      have hgoes := goes_of_tasks ht (onLink_tasks c i (.call k .abandon))
      exact .went t task _ (hgoes.trans (goes_setProgress hgoes.after _))
        (.gaveUpCall budget i k hp (onLink_holder _ _ _) (onLink_installed _ _ _)
          (stage?_abandon hs))
    · exact turns_self c
  · rename_i budget hp
    exact .went t task _ (goes_release ht _) (.gaveUpDial budget hp rfl rfl)
  · exact turns_self c

end

theorem onTask_turns (c : Caller) (t : Nat) {f : Task → Caller}
    (hf : ∀ task, c.tasks[t]? = some task → Turns c (f task)) : Turns c (c.onTask t f) := by
  unfold onTask
  split
  · rename_i task ht
    exact hf task ht
  · exact turns_self c

theorem step_turns (c : Caller) (event : CallerEvent) : Turns c (c.step event) := by
  cases event with
  | ask what => exact .asked what rfl rfl rfl
  | acquire t =>
    apply onTask_turns c t
    intro task ht
    split
    · rename_i hp hfree
      exact acquire_turns ht hp hfree
    · exact turns_self c
  | advance t => exact onTask_turns c t fun task ht => advance_turns ht
  | dialed t result => exact onTask_turns c t fun task ht => dialed_turns ht result
  | abandon t => exact onTask_turns c t fun task ht => abandon_turns ht
  | transport i event => exact turns_onLink c i _
  | reap i =>
    simp only [step]
    split
    · exact turns_self c
    · exact turns_onLink c i _

end Caller

end GameRelay.Outbound
