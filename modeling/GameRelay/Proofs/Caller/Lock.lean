import GameRelay.Proofs.Caller.Lasting

/-!
# The lock and the installed link

From its first attempt or dial on a task holds the lock until it is over. So the
link that it calls on, or found to be shut down, is the installed one, and the
link that it calls on again is the one that its own dial installed.
-/

set_option autoImplicit false

namespace GameRelay.Outbound

open GameRelay.Frame GameRelay.Json

def Progress.holds : Progress → Bool
  | .calling .. | .dialing _ | .leaving .. => true
  | .waiting | .done _ | .abandoned => false

namespace Caller

inductive Stand (c : Caller) (t : Nat) : Progress → List Episode → Prop where
  | waiting : Stand c t .waiting []
  | first (k : Nat) : c.holder = some t →
      Stand c t (.calling .firstAttempt c.installed k) [.attempt c.installed k]
  | second (i k : Nat) : c.holder = some t → c.installed = i + 1 →
      Stand c t (.calling .retried c.installed 0)
        [.attempt i k, .dial true, .attempt c.installed 0]
  | refused (k : Nat) : c.holder = some t →
      Stand c t (.dialing (some .retried)) [.attempt c.installed k]
  | replacing : c.holder = some t → Stand c t (.dialing none) []
  | leaving (k : Nat) (history : List Episode) : c.holder = some t →
      Stand c t (.leaving c.installed k) history
  | kept (i k : Nat) (o : Outcome) : o ≠ .error .shutdown →
      Stand c t (.done (.outcome o)) [.attempt i k]
  | again (i k : Nat) (o : Outcome) :
      Stand c t (.done (.outcome o)) [.attempt i k, .dial true, .attempt (i + 1) 0]
  | lost (i k : Nat) :
      Stand c t (.done (.outcome (.error .lostConnection))) [.attempt i k, .dial false]
  | replaced (succeeded : Bool) : Stand c t (.done (.connected succeeded)) [.dial succeeded]
  | abandoned (history : List Episode) : Stand c t .abandoned history

section
variable {c c' : Caller} {t : Nat} {progress : Progress} {history : List Episode}

theorem Stand.holder (h : Stand c t progress history) (hp : progress.holds = true) :
    c.holder = some t := by
  cases h with
  | first _ hheld | second _ _ hheld | refused _ hheld | replacing hheld | leaving _ _ hheld =>
    exact hheld
  | waiting | kept | again | lost | replaced | abandoned => simp [Progress.holds] at hp

/-- A task without the lock stands where it stands whatever the others do. -/
theorem Stand.of_free (h : Stand c t progress history) (hp : progress.holds = false) :
    Stand c' t progress history := by
  cases h with
  | first | second | refused | replacing | leaving => simp [Progress.holds] at hp
  | waiting => exact .waiting
  | kept i k o hne => exact .kept i k o hne
  | again i k o => exact .again i k o
  | lost i k => exact .lost i k
  | replaced succeeded => exact .replaced succeeded
  | abandoned history => exact .abandoned history

theorem Stand.of_same (h : Stand c t progress history) (hholder : c'.holder = c.holder)
    (hinstalled : c'.installed = c.installed) : Stand c' t progress history := by
  cases h with
  | first k hheld => exact hinstalled ▸ .first k (hholder.trans hheld)
  | second i k hheld hi =>
    exact hinstalled ▸ .second i k (hholder.trans hheld) (hinstalled.trans hi)
  | refused k hheld => exact hinstalled ▸ .refused k (hholder.trans hheld)
  | replacing hheld => exact .replacing (hholder.trans hheld)
  | leaving k history hheld => exact hinstalled ▸ .leaving k history (hholder.trans hheld)
  | waiting => exact .waiting
  | kept i k o hne => exact .kept i k o hne
  | again i k o => exact .again i k o
  | lost i k => exact .lost i k
  | replaced succeeded => exact .replaced succeeded
  | abandoned history => exact .abandoned history

end

section
variable {c c' : Caller} {t : Nat} {task task' : Task}

theorem Turn.stand (h : Turn c c' t task task') (hlast : c.links.length = c.installed + 1)
    (hs : Stand c t task.progress task.history) : Stand c' t task'.progress task'.history := by
  obtain ⟨ask, progress, history⟩ := task
  cases h with
  | began spec hp _ _ hholder hinstalled =>
    obtain rfl : progress = .waiting := hp
    cases hs
    exact hinstalled ▸ .first _ hholder
  | beganDial hp _ _ hholder =>
    obtain rfl : progress = .waiting := hp
    cases hs
    exact .replacing hholder
  | refused i k hp _ hholder hinstalled =>
    obtain rfl : progress = .calling .firstAttempt i k := hp
    cases hs with
    | first _ hheld => exact hinstalled ▸ .refused k (hholder.trans hheld)
  | finished budget i k o hp _ hne =>
    obtain rfl : progress = .calling budget i k := hp
    cases hs with
    | first => exact .kept _ k o (hne rfl)
    | second j n _ hj => exact hj ▸ .again j n o
  | redialed budget hp hholder hinstalled =>
    obtain rfl : progress = .dialing (some budget) := hp
    cases hs with
    | refused k hheld =>
      exact hinstalled ▸ .second c.installed k (hholder.trans hheld) (hinstalled.trans hlast)
  | lost budget hp =>
    obtain rfl : progress = .dialing (some budget) := hp
    cases hs with
    | refused k => exact .lost _ k
  | replaced hp =>
    obtain rfl : progress = .dialing none := hp
    cases hs
    exact .replaced true
  | notReplaced hp =>
    obtain rfl : progress = .dialing none := hp
    cases hs
    exact .replaced false
  | gaveUpCall budget i k hp hholder hinstalled =>
    obtain rfl : progress = .calling budget i k := hp
    cases hs with
    | first k hheld => exact hinstalled ▸ .leaving k _ (hholder.trans hheld)
    | second i k hheld => exact hinstalled ▸ .leaving 0 _ (hholder.trans hheld)
  | gaveUpWaiting | gaveUpDial | left => exact .abandoned _

/-- Only who holds the lock, or takes it while it is free, moves it or the installed link. -/
theorem Turn.lock (h : Turn c c' t task task') (hs : Stand c t task.progress task.history) :
    (c'.holder = c.holder ∧ c'.installed = c.installed) ∨ c.holder = none ∨
      c.holder = some t := by
  have hheld := hs.holder
  cases h with
  | began _ _ hfree | beganDial _ hfree => exact .inr (.inl hfree)
  | refused _ _ _ _ hholder hinstalled | gaveUpWaiting _ hholder hinstalled
  | gaveUpCall _ _ _ _ hholder hinstalled => exact .inl ⟨hholder, hinstalled⟩
  | finished _ _ _ _ hp | redialed _ hp | lost _ hp | replaced hp | notReplaced hp
  | gaveUpDial _ hp | left _ _ _ hp => exact .inr (.inr (hheld (by simp [hp, Progress.holds])))

end

def Placed (c : Caller) : Prop :=
  ∀ (t : Nat) (task : Task), c.tasks[t]? = some task → c.Stand t task.progress task.history

/-- A task after a step has gone on, was there before, or has just come in. While it has the
lock and another one goes on, the lock and the installed link stay. -/
theorem task_of_step {c : Caller} (h : c.Placed) (event : CallerEvent) {t : Nat} {task' : Task}
    (ht' : (c.step event).tasks[t]? = some task') :
    (∃ task, c.tasks[t]? = some task ∧ Turn c (c.step event) t task task') ∨
      (c.tasks[t]? = some task' ∧ (task'.progress.holds = true →
        (c.step event).holder = c.holder ∧ (c.step event).installed = c.installed)) ∨
      (c.tasks[t]? = none ∧ ∃ what, task' = { ask := what }) := by
  cases step_turns c event with
  | none htasks hholder hinstalled =>
    exact .inr (.inl ⟨htasks ▸ ht', fun _ => ⟨hholder, hinstalled⟩⟩)
  | asked what htasks hholder hinstalled =>
    rw [htasks, List.getElem?_append, List.getElem?_singleton] at ht'
    split at ht'
    · exact .inr (.inl ⟨ht', fun _ => ⟨hholder, hinstalled⟩⟩)
    · rename_i hlt
      split at ht'
      · exact .inr (.inr ⟨by simpa using hlt, what, (Option.some.inj ht').symm⟩)
      · simp at ht'
  | went u acting acting' hgoes hturn =>
    by_cases htu : t = u
    · subst htu
      obtain rfl : acting' = task' := Option.some.inj (hgoes.after.symm.trans ht')
      exact .inl ⟨acting, hgoes.before, hturn⟩
    · have ht := (hgoes.others t htu).symm.trans ht'
      refine .inr (.inl ⟨ht, fun hholds => ?_⟩)
      have hheld := (h t task' ht).holder hholds
      rcases hturn.lock (h u acting hgoes.before) with hsame | hfree | hother
      · exact hsame
      · simp [hheld] at hfree
      · exact absurd (Option.some.inj (hheld.symm.trans hother)) htu

theorem step_task {c : Caller} (h : c.Placed) (event : CallerEvent) {t : Nat} {task : Task}
    (ht : c.tasks[t]? = some task) :
    (∃ task', (c.step event).tasks[t]? = some task' ∧ Turn c (c.step event) t task task') ∨
      ((c.step event).tasks[t]? = some task ∧ (task.progress.holds = true →
        (c.step event).holder = c.holder ∧ (c.step event).installed = c.installed)) := by
  obtain ⟨task', ht', -, -⟩ := (step_lasts c event).tasks t task ht
  rcases task_of_step h event ht' with ⟨before, hbefore, hturn⟩ | ⟨hbefore, hstays⟩ | ⟨hnone, -⟩
  · obtain rfl := Option.some.inj (hbefore.symm.trans ht)
    exact .inl ⟨task', ht', hturn⟩
  · obtain rfl := Option.some.inj (hbefore.symm.trans ht)
    exact .inr ⟨ht', hstays⟩
  · simp [ht] at hnone

theorem step_placed {c : Caller} (hlast : c.links.length = c.installed + 1) (h : c.Placed)
    (event : CallerEvent) : (c.step event).Placed := by
  intro t task' ht'
  rcases task_of_step h event ht' with ⟨task, ht, hturn⟩ | ⟨ht, hstays⟩ | ⟨-, what, rfl⟩
  · exact hturn.stand hlast (h t task ht)
  · cases hholds : task'.progress.holds with
    | true =>
      obtain ⟨hholder, hinstalled⟩ := hstays hholds
      exact (h t task' ht).of_same hholder hinstalled
    | false => exact (h t task' ht).of_free hholds
  · exact .waiting

theorem run_placed (events : List CallerEvent) {c : Caller} (hsane : c.Sane) (h : c.Placed) :
    (c.run events).Placed := by
  induction events generalizing c with
  | nil => exact h
  | cons event rest ih => exact ih (step_sane hsane event) (step_placed hsane.linked.last h event)

theorem fresh_placed : ({} : Caller).Placed := fun _ _ h => by simp at h

end Caller

end GameRelay.Outbound
