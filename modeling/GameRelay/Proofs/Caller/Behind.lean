import GameRelay.Proofs.Caller.Beside

/-!
# While a task holds the lock

A caller with one more task, which holds the lock and does nothing: the others go on
as they do without it, and only taking the lock is barred.
-/

set_option autoImplicit false

namespace GameRelay.Outbound.Caller

section
variable {c : Caller} {extra : Extra}

def behind (c : Caller) (extra : Extra) : Caller :=
  { c.beside extra with holder := some extra.place }

theorem behind_tasks (c : Caller) (extra : Extra) (t : Nat) :
    (c.behind extra).tasks[movedBy extra.place t]? = c.tasks[t]? :=
  beside_tasks c extra t

theorem onLink_behind (h : c.Fits extra) (i : Nat) (event : LinkEvent) :
    (c.behind extra).onLink i event = (c.onLink i event).behind extra := by
  unfold onLink
  have hlinks : (c.behind extra).links = c.links := rfl
  rw [hlinks]
  cases c.links[i]? with
  | none => rfl
  | some l => simp only [behind, beside, beside_reports h]

theorem setProgress_behind (c : Caller) (extra : Extra) (t : Nat) (progress : Progress) :
    (c.behind extra).setProgress (movedBy extra.place t) progress =
      (c.setProgress t progress).behind extra := by
  simp only [setProgress, behind, beside, modify_insertIdx_movedBy]

/-- Where nobody is at anything that needs the lock, only taking it looks at it. -/
theorem step_behind (h : c.Fits extra) (hidle : ∀ (t : Nat) (task : Task),
      c.tasks[t]? = some task → task.progress.holds = false)
    {event : CallerEvent} (hevent : event.acquires = false) :
    (c.behind extra).step (event.movedBy extra.place) = (c.step event).behind extra ∧
      (c.step event).holder = c.holder := by
  cases event with
  | ask what =>
    simp only [CallerEvent.movedBy, step, behind, beside, insertIdx_append_of_le _ h.place,
      and_self]
  | acquire t => simp [CallerEvent.acquires] at hevent
  | advance t =>
    simp only [CallerEvent.movedBy, step, onTask, behind_tasks]
    cases ht : c.tasks[t]? with
    | none => exact ⟨rfl, rfl⟩
    | some task =>
      have hfree := hidle t task ht
      simp only [advance]
      cases hp : task.progress with
      | calling | leaving => simp [hp, Progress.holds] at hfree
      | waiting | dialing | done | abandoned => exact ⟨rfl, rfl⟩
  | dialed t result =>
    simp only [CallerEvent.movedBy, step, onTask, behind_tasks]
    cases ht : c.tasks[t]? with
    | none => exact ⟨rfl, rfl⟩
    | some task =>
      have hfree := hidle t task ht
      simp only [dialed]
      cases hp : task.progress with
      | dialing => simp [hp, Progress.holds] at hfree
      | waiting | calling | done | leaving | abandoned => exact ⟨rfl, rfl⟩
  | abandon t =>
    simp only [CallerEvent.movedBy, step, onTask, behind_tasks]
    cases ht : c.tasks[t]? with
    | none => exact ⟨rfl, rfl⟩
    | some task =>
      have hfree := hidle t task ht
      simp only [abandon]
      cases hp : task.progress with
      | calling | dialing => simp [hp, Progress.holds] at hfree
      | waiting => exact ⟨setProgress_behind .., rfl⟩
      | done | leaving | abandoned => exact ⟨rfl, rfl⟩
  | transport i event => exact ⟨onLink_behind h i _, onLink_holder ..⟩
  | reap i =>
    have hinstalled : (c.behind extra).installed = c.installed := rfl
    simp only [CallerEvent.movedBy, step, hinstalled]
    split
    · exact ⟨rfl, rfl⟩
    · exact ⟨onLink_behind h i _, onLink_holder ..⟩

theorem idle_of_free (h : c.Guarded) (hfree : c.holder = none) (t : Nat) (task : Task)
    (ht : c.tasks[t]? = some task) : task.progress.holds = false := by
  by_contra hholds
  have hheld := (h.placed t task ht).holder (by simpa using hholds)
  simp [hfree] at hheld

/-- What the others do meanwhile is what they do where nobody holds the lock. -/
theorem run_behind (hguarded : c.Guarded) (hfree : c.holder = none) (h : c.Fits extra)
    (events : List CallerEvent) (hevents : ∀ event ∈ events, event.acquires = false) :
    (c.behind extra).run (events.map (.movedBy extra.place)) = (c.run events).behind extra ∧
      (c.run events).holder = none := by
  induction events generalizing c with
  | nil => exact ⟨rfl, hfree⟩
  | cons event rest ih =>
    obtain ⟨hstep, hholder⟩ := step_behind h (idle_of_free hguarded hfree)
      (hevents event List.mem_cons_self)
    rw [List.map_cons, run, run, hstep]
    exact ih (step_guarded hguarded event) (hholder.trans hfree) (h.step event)
      fun e he => hevents e (List.mem_cons_of_mem _ he)

end

end GameRelay.Outbound.Caller
