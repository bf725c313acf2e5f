import GameRelay.Proofs.Caller.Tasks

/-!
# The steps of a caller

Every step of a task takes it to the next place of its course, and every other
step lets the tasks be where they are. So what holds of a fresh caller holds at
any moment of it.
-/

set_option autoImplicit false

namespace GameRelay.Outbound

open GameRelay.Frame GameRelay.Json

namespace Caller

/-! ## The steps of a task -/

section
variable {c : Caller} {t : Nat} {task : Task}

theorem acquire_sane (h : c.Sane) (ht : c.tasks[t]? = some task)
    (hp : task.progress = .waiting) : (c.acquire t task).Sane := by
  have hcourse := h.course t task ht
  obtain ⟨ask, progress, history⟩ := task
  obtain rfl : progress = .waiting := hp
  cases hcourse
  have hheld : c.Follows { c with holder := some t } := follows_of_links h.linked rfl rfl
  have hgoes : Goes c { c with holder := some t } t _ _ := goes_of_tasks ht rfl
  unfold acquire
  split
  · rename_i spec hspec
    apply sane_of_attempt h hheld hgoes (fun _ _ => Iff.rfl) .firstAttempt spec
    intro hmade _
    exact .calling spec _ _ _ _ hspec (.first _ _ hmade)
  · rename_i hspec
    exact sane_of_follows h (hheld.trans (follows_of_links hheld.linked rfl rfl))
      (hgoes.trans (goes_setProgress hgoes.after _)) (fun _ _ => Iff.rfl) (.replacing hspec)

theorem afterFailure_reconnect {budget budget' : Budget} {error : RelayError}
    (h : budget.afterFailure error = (budget', .reconnect)) :
    budget = .firstAttempt ∧ budget' = .retried ∧ error = .shutdown := by
  cases budget <;> cases error <;> simp_all [Budget.afterFailure]

theorem afterFailure_fail {budget budget' : Budget} {error error' : RelayError}
    (h : budget.afterFailure error = (budget', .fail error')) : error' = error := by
  cases budget <;> cases error <;> simp_all [Budget.afterFailure]

theorem settle_sane (h : c.Sane) (ht : c.tasks[t]? = some task) {budget : Budget} {i k : Nat}
    {spec : CallSpec} {outcome : Outcome} (hspec : task.ask.call? = some spec)
    (htried : c.Tried spec budget i k task.history) (hreturned : c.Returned spec i k outcome) :
    (c.settle t spec.method budget outcome).Sane := by
  have hreleased : ∀ c' : Caller, c'.links = c.links → c'.installed = c.installed →
      c'.tasks = c.tasks → (c'.release t (.done (.outcome outcome))).Sane := by
    intro c' hlinks hinstalled htasks
    have hgoes := goes_of_tasks ht htasks
    have hfollows : c.Follows (c'.release t (.done (.outcome outcome))) :=
      follows_of_links h.linked hlinks hinstalled
    exact sane_of_follows h hfollows (hgoes.trans (goes_release hgoes.after _))
      (fun _ _ => Iff.rfl) (.returned spec budget i k _ outcome hspec (htried.later hfollows.later)
        (hreturned.later hfollows.later))
  cases outcome with
  | ok v => exact hreleased c rfl rfl rfl
  | error error =>
    simp only [settle]
    split
    · rename_i budget' hafter
      obtain ⟨rfl, rfl, rfl⟩ := afterFailure_reconnect hafter
      obtain ⟨ask, progress, history⟩ := task
      cases htried
      exact sane_of_follows h (follows_of_links h.linked rfl rfl) (goes_setProgress ht _)
        (fun _ _ => Iff.rfl) (.refused spec i k hspec (hreturned.later (later_of_links rfl)))
    · rename_i budget' error' hafter
      obtain rfl := afterFailure_fail hafter
      exact hreleased _ rfl rfl rfl

theorem returned_of_stage {spec : CallSpec} {i k : Nat} {outcome : Outcome}
    (hmade : c.Made spec i k) (hs : c.stage? i k = some (.ended (some outcome))) :
    c.Returned spec i k outcome := by
  obtain ⟨call, hcall, hspec⟩ := hmade
  have hstage : c.stage? i k = (c.call? i k).map Call.stage := rfl
  exact ⟨call, hcall, hspec, by simpa [hstage, hcall] using hs⟩

theorem sane_of_callStep (h : c.Sane) (i k : Nat) (step : CallStep) :
    (c.onLink i (.call k step)).Sane :=
  sane_of_links h (follows_onLink h.linked i (by simp) (by simp)) (onLink_tasks _ _ _)

theorem advance_sane (h : c.Sane) (ht : c.tasks[t]? = some task) : (c.advance t task).Sane := by
  have hcourse := h.course t task ht
  obtain ⟨ask, progress, history⟩ := task
  cases progress with
  | waiting | dialing | done | abandoned => exact h
  | calling budget i k =>
    cases hcourse with
    | calling spec _ _ _ _ hspec htried =>
      simp only [advance]
      split
      · rename_i outcome hs
        simp only [hspec]
        exact settle_sane h ht hspec htried (returned_of_stage htried.made hs)
      · split
        · exact sane_of_callStep h i k _
        · exact h
      · exact h
  | leaving i k =>
    cases hcourse with
    | leaving spec budget _ _ _ hspec htried =>
      simp only [advance]
      split
      · exact sane_of_callStep h i k .leave
      · exact sane_of_follows h (follows_of_links h.linked rfl rfl) (goes_release ht _)
          (fun _ _ => Iff.rfl)
          (.abandonedCall spec budget i k _ hspec (htried.later (later_of_links rfl)))
      · exact h

theorem dialed_sane (h : c.Sane) (ht : c.tasks[t]? = some task)
    (result : Except RelayError Unit) : (c.dialed t task result).Sane := by
  have hcourse := h.course t task ht
  obtain ⟨ask, progress, history⟩ := task
  cases progress with
  | waiting | calling | done | leaving | abandoned => exact h
  | dialing left =>
    cases hcourse with
    | replacing hspec =>
      simp only [dialed]
      cases result with
      | ok =>
        have hfollows : c.Follows (c.record t (.dial true)) :=
          follows_of_links h.linked rfl rfl
        have hinstall := follows_install hfollows.linked
        exact sane_of_follows h
          ((hfollows.trans hinstall).trans (follows_of_links hinstall.linked rfl rfl))
          (goes_dialed ht (.dial true) _ rfl) (by simp) (.replaced true hspec)
      | error error =>
        exact sane_of_follows h (follows_of_links h.linked rfl rfl)
          (goes_dialed ht (.dial false) _ rfl) (by simp) (.replaced false hspec)
    | refused spec i k hspec hrefused =>
      simp only [dialed, hspec]
      cases result with
      | ok =>
        have hgoes := goes_record ht (.dial true)
        have hrecord : c.Follows (c.record t (.dial true)) :=
          follows_of_links h.linked rfl rfl
        have hinstall := follows_install hrecord.linked
        have hfollows : c.Follows ((c.record t (.dial true)).install.report .reconnected) :=
          (hrecord.trans hinstall).trans (follows_of_links hinstall.linked rfl rfl)
        -- The first attempt was on a link that was there before the dial.
        have hne : i ≠ c.links.length := by
          obtain ⟨call, hcall, -⟩ := hrefused
          obtain ⟨l, hl, -⟩ := call?_eq_some_iff.mp hcall
          exact Nat.ne_of_lt (List.getElem?_eq_some_iff.mp hl).1
        apply sane_of_attempt h hfollows (hgoes.trans (goes_of_tasks hgoes.after rfl)) (by simp)
          .retried spec
        intro hmade hlater
        have hrefused' := (hrefused.later hfollows.later).later hlater
        exact .calling spec _ _ _ _ hspec (.again i k _ _ hrefused' hne hmade)
      | error error =>
        exact sane_of_follows h (follows_of_links h.linked rfl rfl)
          (goes_dialed ht (.dial false) _ rfl) (by simp)
          (.lost spec i k hspec (hrefused.later (later_of_links rfl)))

theorem abandon_sane (h : c.Sane) (ht : c.tasks[t]? = some task) : (c.abandon t task).Sane := by
  have hcourse := h.course t task ht
  obtain ⟨ask, progress, history⟩ := task
  cases progress with
  | done | leaving | abandoned => exact h
  | waiting =>
    cases hcourse
    exact sane_of_follows h (follows_of_links h.linked rfl rfl) (goes_setProgress ht _)
      (fun _ _ => Iff.rfl) .abandoned
  | calling budget i k =>
    cases hcourse with
    | calling spec _ _ _ _ hspec htried =>
      simp only [abandon]
      split
      · have hfollows : c.Follows (c.onLink i (.call k .abandon)) :=
          follows_onLink h.linked i (by simp) (by simp)
        have hgoes := goes_of_tasks ht (onLink_tasks c i (.call k .abandon))
        exact sane_of_follows h
          (hfollows.trans (follows_of_links hfollows.linked rfl rfl))
          (hgoes.trans (goes_setProgress hgoes.after _)) (fun _ _ => Iff.rfl)
          (.leaving spec budget i k _ hspec (htried.later hfollows.later))
      · exact h
  | dialing left =>
    cases hcourse with
    | replacing hspec =>
      exact sane_of_follows h (follows_of_links h.linked rfl rfl) (goes_release ht _)
        (fun _ _ => Iff.rfl) .abandoned
    | refused spec i k hspec hrefused =>
      exact sane_of_follows h (follows_of_links h.linked rfl rfl) (goes_release ht _)
        (fun _ _ => Iff.rfl)
        (.abandonedDial spec i k hspec (hrefused.later (later_of_links rfl)))

end

/-! ## Any step -/

theorem onTask_sane {c : Caller} (h : c.Sane) (t : Nat) {f : Task → Caller}
    (hf : ∀ task, c.tasks[t]? = some task → (f task).Sane) : (c.onTask t f).Sane := by
  unfold onTask
  split
  · rename_i task ht
    exact hf task ht
  · exact h

theorem ask_sane {c : Caller} (h : c.Sane) (what : Ask) : (c.step (.ask what)).Sane := by
  have hfollows : c.Follows (c.step (.ask what)) := follows_of_links h.linked rfl rfl
  have htasks : ∀ (t : Nat) (task : Task), (c.step (.ask what)).tasks[t]? = some task →
      c.tasks[t]? = some task ∨ task = { ask := what } := by
    intro t task ht
    simp only [step, List.getElem?_append, List.getElem?_singleton] at ht
    split at ht
    · exact .inl ht
    · split at ht
      · exact .inr (Option.some.inj ht).symm
      · simp at ht
  constructor
  · exact hfollows.linked
  · intro t task ht
    rcases htasks t task ht with ht | rfl
    · exact (h.course t task ht).later hfollows.later
    · exact .waiting
  · intro i k hcall
    obtain ⟨t, task, ht, hmem⟩ := h.made i k (hfollows.fresh i k hcall)
    have ht' : (c.tasks ++ [{ ask := what }])[t]? = some task :=
      List.getElem?_append_left (List.getElem?_eq_some_iff.mp ht).1 ▸ ht
    exact ⟨t, task, ht', hmem⟩
  · intro t u task other i k ht hu hmem hmem'
    rcases htasks t task ht with ht | rfl
    · rcases htasks u other hu with hu | rfl
      · exact h.own t u task other i k ht hu hmem hmem'
      · simp at hmem'
    · simp at hmem

theorem step_sane {c : Caller} (h : c.Sane) (event : CallerEvent) : (c.step event).Sane := by
  cases event with
  | ask what => exact ask_sane h what
  | acquire t =>
    apply onTask_sane h t
    intro task ht
    split
    · rename_i hp _
      exact acquire_sane h ht hp
    · exact h
  | advance t => exact onTask_sane h t fun task ht => advance_sane h ht
  | dialed t result => exact onTask_sane h t fun task ht => dialed_sane h ht result
  | abandon t => exact onTask_sane h t fun task ht => abandon_sane h ht
  | transport i event =>
    exact sane_of_links h (follows_onLink h.linked i (by simp) (by simp)) (onLink_tasks _ _ _)
  | reap i =>
    simp only [step]
    split
    · exact h
    · rename_i hi
      exact sane_of_links h (follows_onLink h.linked i (fun _ => hi) (by simp))
        (onLink_tasks _ _ _)

theorem run_sane {c : Caller} (h : c.Sane) (events : List CallerEvent) : (c.run events).Sane := by
  induction events generalizing c with
  | nil => exact h
  | cons event rest ih => exact ih (step_sane h event)

theorem fresh_sane : ({} : Caller).Sane := by
  constructor
  · constructor
    · intro l hl
      exact ⟨[], List.mem_singleton.mp hl⟩
    · rfl
    · intro l hl
      obtain rfl : {} = l := Option.some.inj hl
      rfl
  · intro t task ht
    simp at ht
  · intro i k hcall
    obtain ⟨l, hl, hk⟩ := isSome_call?_iff.mp hcall
    obtain rfl : l = {} := List.mem_singleton.mp (List.mem_of_getElem? hl)
    simp at hk
  · intro t u task other i k ht
    simp at ht

end Caller

end GameRelay.Outbound
