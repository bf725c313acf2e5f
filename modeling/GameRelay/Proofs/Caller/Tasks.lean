import GameRelay.Proofs.Caller.Course

/-!
# The tasks of a caller

Whatever order tasks, links and the runtime take their steps in, each task keeps
to its course, and each call of a link stays an attempt of exactly one task.
-/

set_option autoImplicit false

namespace GameRelay.Outbound

open GameRelay.Frame GameRelay.Json

namespace Caller

structure Sane (c : Caller) : Prop where
  linked : c.Linked
  course : ∀ (t : Nat) (task : Task), c.tasks[t]? = some task →
    c.Course task.ask task.progress task.history
  made : ∀ i k, (c.call? i k).isSome = true →
    ∃ (t : Nat) (task : Task), c.tasks[t]? = some task ∧ .attempt i k ∈ task.history
  own : ∀ (t u : Nat) (task other : Task) (i k : Nat), c.tasks[t]? = some task →
    c.tasks[u]? = some other → .attempt i k ∈ task.history →
    .attempt i k ∈ other.history → t = u

/-! ## One task goes on -/

structure Goes (c c' : Caller) (t : Nat) (task task' : Task) : Prop where
  before : c.tasks[t]? = some task
  after : c'.tasks[t]? = some task'
  others : ∀ u, u ≠ t → c'.tasks[u]? = c.tasks[u]?

section
variable {c c' c'' : Caller} {t : Nat} {task task' task'' : Task}

theorem Goes.trans (h : Goes c c' t task task') (h' : Goes c' c'' t task' task'') :
    Goes c c'' t task task'' :=
  ⟨h.before, h'.after, fun u hu => (h'.others u hu).trans (h.others u hu)⟩

theorem goes_of_tasks (ht : c.tasks[t]? = some task) (htasks : c'.tasks = c.tasks) :
    Goes c c' t task task :=
  ⟨ht, htasks ▸ ht, fun u _ => by rw [htasks]⟩

theorem goes_of_modify (ht : c.tasks[t]? = some task) {f : Task → Task}
    (htasks : c'.tasks = c.tasks.modify t f) : Goes c c' t task (f task) := by
  constructor
  · exact ht
  · simp [htasks, ht]
  · intro u hu
    simp [htasks, Ne.symm hu]

theorem goes_setProgress (ht : c.tasks[t]? = some task) (progress : Progress) :
    Goes c (c.setProgress t progress) t task { task with progress } :=
  goes_of_modify (f := fun task => { task with progress }) ht rfl

theorem goes_release (ht : c.tasks[t]? = some task) (progress : Progress) :
    Goes c (c.release t progress) t task { task with progress } :=
  goes_of_modify (f := fun task => { task with progress }) ht rfl

theorem goes_record (ht : c.tasks[t]? = some task) (episode : Episode) :
    Goes c (c.record t episode) t task { task with history := task.history ++ [episode] } :=
  goes_of_modify (f := fun task => { task with history := task.history ++ [episode] }) ht rfl

/-- A task is done after the dial that it waited for. -/
theorem goes_dialed (ht : c.tasks[t]? = some task) (episode : Episode) (progress : Progress)
    {c₁ : Caller} (htasks : c₁.tasks = (c.record t episode).tasks) :
    Goes c (c₁.release t progress) t task
      { task with progress, history := task.history ++ [episode] } := by
  have hrecord := goes_record ht episode
  exact hrecord.trans ((goes_of_tasks hrecord.after htasks).trans
    (goes_release (htasks ▸ hrecord.after) progress))

theorem goes_attempt (ht : c.tasks[t]? = some task) (budget : Budget) (spec : CallSpec) :
    Goes c (c.attempt t budget spec) t task
      { task with
        progress := .calling budget c.installed (c.nextCall c.installed)
        history := task.history ++ [.attempt c.installed (c.nextCall c.installed)] } := by
  have hrecord := goes_record ht (.attempt c.installed (c.nextCall c.installed))
  exact hrecord.trans ((goes_of_tasks hrecord.after (onLink_tasks _ _ _)).trans
    (goes_setProgress (by rw [onLink_tasks]; exact hrecord.after) _))

end

/-- The task goes on to another place of its course; the calls it makes are new. -/
theorem sane_of_going {c c' : Caller} (h : c.Sane) {t : Nat} {task task' : Task}
    (new : Nat → Nat → Prop) (hlinked : c'.Linked) (hlater : c.Later c')
    (hfresh : ∀ i k, (c'.call? i k).isSome = true → (c.call? i k).isSome = true ∨ new i k)
    (hnew : ∀ i k, new i k → c.call? i k = none) (hgoes : Goes c c' t task task')
    (hhistory : ∀ i k, .attempt i k ∈ task'.history ↔ .attempt i k ∈ task.history ∨ new i k)
    (hcourse : c'.Course task'.ask task'.progress task'.history) : c'.Sane := by
  have hothers : ∀ u other, u ≠ t → c'.tasks[u]? = some other → c.tasks[u]? = some other :=
    fun u other hu hother => (hgoes.others u hu).symm.trans hother
  -- Another task has none of the new calls, since it has attempted only what there was.
  have hforeign : ∀ u other i k, u ≠ t → c'.tasks[u]? = some other →
      .attempt i k ∈ other.history → .attempt i k ∉ task'.history := by
    intro u other i k hu hother hmem hmem'
    have hother := hothers u other hu hother
    rcases (hhistory i k).mp hmem' with hold | hk
    · exact hu (h.own u t other task i k hother hgoes.before hmem hold)
    · obtain ⟨spec, -, call, hcall, -⟩ := made_of_course (h.course u other hother) hmem
      simp [hnew i k hk] at hcall
  constructor
  case linked => exact hlinked
  case course =>
    intro u other hother
    by_cases hu : u = t
    · subst hu
      obtain rfl : task' = other := Option.some.inj (hgoes.after.symm.trans hother)
      exact hcourse
    · exact (h.course u other (hothers u other hu hother)).later hlater
  case made =>
    intro i k hcall
    rcases hfresh i k hcall with hcall | hk
    · obtain ⟨u, other, hother, hmem⟩ := h.made i k hcall
      by_cases hu : u = t
      · subst hu
        obtain rfl : task = other := Option.some.inj (hgoes.before.symm.trans hother)
        exact ⟨u, task', hgoes.after, (hhistory i k).mpr (.inl hmem)⟩
      · exact ⟨u, other, (hgoes.others u hu).trans hother, hmem⟩
    · exact ⟨t, task', hgoes.after, (hhistory i k).mpr (.inr hk)⟩
  case own =>
    intro u v one other i k hone hother hmem hmem'
    by_cases hu : u = t <;> by_cases hv : v = t
    · rw [hu, hv]
    · subst hu
      obtain rfl : task' = one := Option.some.inj (hgoes.after.symm.trans hone)
      exact absurd hmem (hforeign v other i k hv hother hmem')
    · subst hv
      obtain rfl : task' = other := Option.some.inj (hgoes.after.symm.trans hother)
      exact absurd hmem' (hforeign u one i k hu hone hmem)
    · exact h.own u v one other i k (hothers u one hu hone) (hothers v other hv hother) hmem hmem'

theorem sane_of_follows {c c' : Caller} (h : c.Sane) {t : Nat} {task task' : Task}
    (hfollows : c.Follows c') (hgoes : Goes c c' t task task')
    (hhistory : ∀ i k, .attempt i k ∈ task'.history ↔ .attempt i k ∈ task.history)
    (hcourse : c'.Course task'.ask task'.progress task'.history) : c'.Sane :=
  sane_of_going h (fun _ _ => False) hfollows.linked hfollows.later
    (fun i k hcall => .inl (hfollows.fresh i k hcall)) (fun _ _ => False.elim) hgoes
    (fun i k => by rw [hhistory, or_false]) hcourse

/-- The links go on while no task does. -/
theorem sane_of_links {c c' : Caller} (h : c.Sane) (hfollows : c.Follows c')
    (htasks : c'.tasks = c.tasks) : c'.Sane := by
  constructor
  · exact hfollows.linked
  · intro t task ht
    exact (h.course t task (htasks ▸ ht)).later hfollows.later
  · intro i k hcall
    rw [htasks]
    exact h.made i k (hfollows.fresh i k hcall)
  · rw [htasks]
    exact h.own

/-- A task makes an attempt, after what has happened in between. -/
theorem sane_of_attempt {c c₁ : Caller} (h : c.Sane) {t : Nat} {task task₁ : Task}
    (hfollows : c.Follows c₁) (hgoes : Goes c c₁ t task task₁)
    (hhistory : ∀ i k, .attempt i k ∈ task₁.history ↔ .attempt i k ∈ task.history)
    (budget : Budget) (spec : CallSpec)
    (hcourse : (c₁.attempt t budget spec).Made spec c₁.installed (c₁.nextCall c₁.installed) →
      c₁.Later (c₁.attempt t budget spec) →
      (c₁.attempt t budget spec).Course task₁.ask
        (.calling budget c₁.installed (c₁.nextCall c₁.installed))
        (task₁.history ++ [.attempt c₁.installed (c₁.nextCall c₁.installed)])) :
    (c₁.attempt t budget spec).Sane := by
  have hattempted := attempt_attempted hfollows.linked t budget spec
  apply sane_of_going h
    (fun i k => i = c₁.installed ∧ k = c₁.nextCall c₁.installed) hattempted.linked
    (hfollows.later.trans hattempted.later) _ _
    (hgoes.trans (goes_attempt hgoes.after budget spec)) _
    (hcourse hattempted.made hattempted.later)
  · intro i k hcall
    exact (hattempted.fresh i k hcall).imp_left (hfollows.fresh i k)
  · rintro i k ⟨rfl, rfl⟩
    cases hcall : c.call? c₁.installed (c₁.nextCall c₁.installed) with
    | none => rfl
    | some call =>
      obtain ⟨call', hcall', -⟩ := hfollows.later _ _ call hcall
      simp [hattempted.free] at hcall'
  · intro i k
    simp [hhistory]

end Caller

end GameRelay.Outbound
