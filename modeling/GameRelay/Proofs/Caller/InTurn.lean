import GameRelay.Proofs.Caller.Sent

/-!
# One task after the other

Where each task is asked for only after the one before it is done, the lines come in
the order of the tasks.
-/

set_option autoImplicit false

namespace GameRelay.Outbound

open GameRelay.Frame

namespace Caller

structure InTurn (c : Caller) : Prop where
  done : ∀ (t : Nat) (task : Task), c.tasks[t]? = some task → t + 1 < c.tasks.length →
    ∃ verdict, task.progress = .done verdict
  lines : c.lines = c.tasks.flatMap c.linesOf

theorem linesOf_of_lines {c c' : Caller} (h : c'.lines = c.lines) : c'.linesOf = c.linesOf := by
  funext task
  rw [linesOf, linesOf, h]

/-- A task that is new has attempted nothing. -/
theorem inTurn_of_ask {c : Caller} (hin : c.InTurn) (what : Ask)
    (hdone : ∀ task ∈ c.tasks, ∃ verdict, task.progress = .done verdict) :
    (c.step (.ask what)).InTurn := by
  have hlines : (c.step (.ask what)).lines = c.lines := rfl
  constructor
  · intro t task ht hlt
    have hlt : t < c.tasks.length := by simpa [step] using hlt
    have ht : (c.tasks ++ [{ ask := what }])[t]? = some task := ht
    rw [List.getElem?_append_left hlt] at ht
    exact hdone task (List.mem_of_getElem? ht)
  · have hnone : c.linesOf { ask := what } = [] := linesOf_eq_nil (by simp)
    have htasks : (c.step (.ask what)).tasks = c.tasks ++ [{ ask := what }] := rfl
    rw [linesOf_of_lines hlines, hlines, htasks, List.flatMap_append, List.flatMap_singleton, hnone,
      List.append_nil]
    exact hin.lines

section
variable {c : Caller} {t : Nat} {task task' : Task}

/-- A task that is done stays as it is. -/
theorem step_done (h : c.Placed) (event : CallerEvent) (ht : c.tasks[t]? = some task)
    {verdict : Verdict} (hdone : task.progress = .done verdict) :
    (c.step event).tasks[t]? = some task := by
  rcases step_task h event ht with ⟨task', -, hturn⟩ | ⟨ht', -⟩
  · cases hturn with
    | began _ hp | beganDial hp | refused _ _ hp | finished _ _ _ _ hp | redialed _ hp
    | lost _ hp | replaced hp | notReplaced hp | gaveUpWaiting hp | gaveUpCall _ _ _ hp
    | gaveUpDial _ hp | left _ _ _ hp => simp [hp] at hdone
  · exact ht'

/-- Whose a line is does not change. -/
theorem attempt_iff_of_step (h : c.Sane) (event : CallerEvent) (ht : c.tasks[t]? = some task)
    (ht' : (c.step event).tasks[t]? = some task') {line : Nat × Nat} (hline : line ∈ c.lines) :
    .attempt line.1 line.2 ∈ task'.history ↔ .attempt line.1 line.2 ∈ task.history := by
  have hlasts := step_lasts c event
  constructor
  · intro hmem
    obtain ⟨l, hl, hk⟩ := queued_of_mem_lines hline
    have hlt := (tidy_of_linked h.linked hl).queued line.2 hk
    obtain ⟨u, other, hu, hmade⟩ := h.made line.1 line.2 (isSome_call?_iff.mpr ⟨l, hl, hlt⟩)
    obtain ⟨other', hu', -, hhistory⟩ := hlasts.tasks u other hu
    obtain rfl := (step_sane h event).own u t other' task' _ _ hu' ht'
      (hhistory.subset hmade) hmem
    obtain rfl := Option.some.inj (ht.symm.trans hu)
    exact hmade
  · intro hmem
    obtain ⟨after, hafter, -, hhistory⟩ := hlasts.tasks t task ht
    obtain rfl := Option.some.inj (ht'.symm.trans hafter)
    exact hhistory.subset hmem

/-- A task keeps its lines, and gets those of the new ones that it attempted. -/
theorem linesOf_of_step (h : c.Sane) (event : CallerEvent) (ht : c.tasks[t]? = some task)
    (ht' : (c.step event).tasks[t]? = some task') {more : List (Nat × Nat)}
    (hlines : (c.step event).lines = c.lines ++ more) :
    (c.step event).linesOf task' = c.linesOf task ++
      more.filter fun line => decide (.attempt line.1 line.2 ∈ task'.history) := by
  rw [linesOf, hlines, List.filter_append, linesOf]
  congr 1
  apply List.filter_congr
  intro line hline
  exact decide_eq_decide.mpr (attempt_iff_of_step h event ht ht' hline)

/-- A task that is done is at no call. -/
theorem last_of_call? (hin : c.InTurn) (ht : c.tasks[t]? = some task) {line : Nat × Nat}
    (hat : task.progress.call? = some line) : t + 1 = c.tasks.length := by
  have hlt := (List.getElem?_eq_some_iff.mp ht).1
  by_contra hlast
  obtain ⟨verdict, hdone⟩ := hin.done t task ht (by omega)
  simp [hdone, Progress.call?] at hat

end

section
variable (c : Caller) (t : Nat)

theorem length_attempt (budget : Budget) (spec : CallSpec) :
    (c.attempt t budget spec).tasks.length = c.tasks.length := by
  simp [attempt, setProgress, record]

theorem length_release (progress : Progress) :
    (c.release t progress).tasks.length = c.tasks.length := by
  simp [release, setProgress]

theorem length_settle (method : String) (budget : Budget) (outcome : Outcome) :
    (c.settle t method budget outcome).tasks.length = c.tasks.length := by
  cases outcome with
  | ok v => exact length_release c t _
  | error error =>
    simp only [settle]
    split
    · simp [setProgress]
    · exact length_release (c.report _) t _

theorem length_advance (task : Task) : (c.advance t task).tasks.length = c.tasks.length := by
  unfold advance
  split
  · split
    · split
      · exact length_settle c t _ _ _
      · rfl
    · split <;> simp
    · rfl
  · split
    · simp
    · exact length_release c t _
    · rfl
  · rfl

theorem length_dialed (task : Task) (result : Except RelayError Unit) :
    (c.dialed t task result).tasks.length = c.tasks.length := by
  have hrecord : ∀ episode, (c.record t episode).tasks.length = c.tasks.length := by
    simp [record]
  unfold dialed
  split
  · cases result with
    | ok => exact (length_attempt _ t _ _).trans (hrecord (.dial true))
    | error error => exact (length_release _ t _).trans (hrecord (.dial false))
  · cases result with
    | ok => exact (length_release _ t _).trans (hrecord (.dial true))
    | error error => exact (length_release _ t _).trans (hrecord (.dial false))
  · rfl

theorem length_abandon (task : Task) : (c.abandon t task).tasks.length = c.tasks.length := by
  unfold abandon
  split
  · simp [setProgress]
  · split
    · simp [setProgress]
    · rfl
  · exact length_release c t _
  · rfl

theorem length_onTask {f : Task → Caller}
    (hf : ∀ task, (f task).tasks.length = c.tasks.length) :
    (c.onTask t f).tasks.length = c.tasks.length := by
  unfold onTask
  split
  · exact hf _
  · rfl

end

/-- Only a request for a task brings one in. -/
theorem length_of_step (c : Caller) {event : CallerEvent} (hask : ∀ what, event ≠ .ask what) :
    (c.step event).tasks.length = c.tasks.length := by
  cases event with
  | ask what => exact absurd rfl (hask what)
  | acquire t =>
    apply length_onTask c t
    intro task
    split
    · unfold acquire
      split
      · exact length_attempt _ t _ _
      · simp [setProgress]
    · rfl
  | advance t => exact length_onTask c t (length_advance c t)
  | dialed t result => exact length_onTask c t fun task => length_dialed c t task result
  | abandon t => exact length_onTask c t (length_abandon c t)
  | transport i event => simp [step]
  | reap i =>
    rw [step]
    split <;> simp

section
variable {c : Caller} {event : CallerEvent} {earlier : List Task} {last : Task}

/-- Every task before the last one stays as it is. -/
theorem earlier_of_step (h : c.Guarded) (hin : c.InTurn) (htasks : c.tasks = earlier ++ [last])
    {u : Nat} {other : Task} (hu : earlier[u]? = some other) :
    c.tasks[u]? = some other ∧ (c.step event).tasks[u]? = some other := by
  have hlt := (List.getElem?_eq_some_iff.mp hu).1
  have hu' : c.tasks[u]? = some other := by rw [htasks, List.getElem?_append_left hlt, hu]
  obtain ⟨verdict, hdone⟩ := hin.done u other hu' (by simpa [htasks] using hlt)
  exact ⟨hu', step_done h.placed event hu' hdone⟩

/-- So the last one alone goes on. -/
theorem tasks_of_step (h : c.Guarded) (hin : c.InTurn) (hask : ∀ what, event ≠ .ask what)
    (htasks : c.tasks = earlier ++ [last]) :
    ∃ last', (c.step event).tasks = earlier ++ [last'] ∧ last.history <+: last'.history := by
  have hlength := length_of_step c hask
  have ht : c.tasks[earlier.length]? = some last := by simp [htasks]
  obtain ⟨last', ht', -, hhistory⟩ := (step_lasts c event).tasks _ last ht
  refine ⟨last', ?_, hhistory⟩
  apply List.ext_getElem
  · rw [hlength, htasks, List.length_append, List.length_append, List.length_singleton,
      List.length_singleton]
  intro u hu hu'
  apply Option.some.inj
  rw [← List.getElem?_eq_getElem, ← List.getElem?_eq_getElem]
  rcases Nat.lt_or_ge u earlier.length with hlt | hge
  · rw [List.getElem?_append_left hlt, List.getElem?_eq_getElem hlt]
    exact (earlier_of_step h hin htasks (List.getElem?_eq_getElem hlt)).2
  · obtain rfl : u = earlier.length := by simp at hu'; omega
    rw [ht', List.getElem?_concat_length]

/-- What is new is a line of the last task. -/
theorem new_of_step (h : c.Guarded) (hin : c.InTurn) (htasks : c.tasks = earlier ++ [last])
    {last' : Task} (hhistory : last.history <+: last'.history) :
    ∃ more, (c.step event).lines = c.lines ++ more ∧
      ∀ line ∈ more, .attempt line.1 line.2 ∈ last'.history := by
  have ht : c.tasks[earlier.length]? = some last := by simp [htasks]
  rcases lines_of_step h event with hlines | ⟨t, task, line, -, hu, hat, hlines⟩
  · exact ⟨[], by simp [hlines], by simp⟩
  · have hlast := last_of_call? hin hu hat
    obtain rfl : t = earlier.length := by simpa [htasks] using hlast
    obtain rfl := Option.some.inj (hu.symm.trans ht)
    refine ⟨[line], hlines, fun other hother => ?_⟩
    obtain rfl := List.mem_singleton.mp hother
    exact hhistory.subset (attempt_of_call? (h.sane.course _ _ hu) hat)

/-- Which lines are whose after a step: a task before the last one has those that it had. -/
theorem linesOf_of_new (h : c.Guarded) (hin : c.InTurn) (htasks : c.tasks = earlier ++ [last])
    {last' : Task} (htasks' : (c.step event).tasks = earlier ++ [last'])
    {more : List (Nat × Nat)} (hlines : (c.step event).lines = c.lines ++ more)
    (hmore : ∀ line ∈ more, .attempt line.1 line.2 ∈ last'.history) :
    (∀ other ∈ earlier, (c.step event).linesOf other = c.linesOf other) ∧
      (c.step event).linesOf last' = c.linesOf last ++ more := by
  have ht : c.tasks[earlier.length]? = some last := by simp [htasks]
  have ht' : (c.step event).tasks[earlier.length]? = some last' := by simp [htasks']
  constructor
  · intro other hother
    obtain ⟨u, hu⟩ := List.mem_iff_getElem?.mp hother
    obtain ⟨hu₁, hu₂⟩ := earlier_of_step h hin htasks hu
    rw [linesOf_of_step h.sane event hu₁ hu₂ hlines, List.filter_eq_nil_iff.mpr,
      List.append_nil]
    intro line hline hmem
    have hsame := (step_guarded h event).sane.own u earlier.length other last' line.1 line.2 hu₂ ht'
      (by simpa using hmem) (hmore line hline)
    have hlt := (List.getElem?_eq_some_iff.mp hu).1
    omega
  · rw [linesOf_of_step h.sane event ht ht' hlines, List.filter_eq_self.mpr]
    simpa using hmore

end

/-- The lines stay in the order of the tasks, since only the last one queues any. -/
theorem inTurn_of_step {c : Caller} (h : c.Guarded) (hin : c.InTurn) {event : CallerEvent}
    (hask : ∀ what, event ≠ .ask what) : (c.step event).InTurn := by
  have hlength := length_of_step c hask
  constructor
  case done =>
    intro t task' ht' hlt
    obtain ⟨task, ht⟩ : ∃ task, c.tasks[t]? = some task :=
      ⟨_, List.getElem?_eq_getElem (by omega)⟩
    obtain ⟨verdict, hdone⟩ := hin.done t task ht (by omega)
    obtain rfl := Option.some.inj (ht'.symm.trans (step_done h.placed event ht hdone))
    exact ⟨verdict, hdone⟩
  case lines =>
    rcases List.eq_nil_or_concat c.tasks with hnil | ⟨earlier, last, htasks⟩
    · have hnil' : (c.step event).tasks = [] :=
        List.eq_nil_of_length_eq_zero (by rw [hlength, hnil]; rfl)
      have hnone : c.lines = [] := by rw [hin.lines, hnil]; rfl
      rcases lines_of_step h event with hlines | ⟨t, task, -, -, ht, -⟩
      · rw [hlines, hnone, hnil']; rfl
      · simp [hnil] at ht
    · rw [List.concat_eq_append] at htasks
      obtain ⟨last', htasks', hhistory⟩ := tasks_of_step h hin hask htasks
      obtain ⟨more, hlines, hmore⟩ := new_of_step h hin htasks hhistory
      obtain ⟨hsame, hlast⟩ := linesOf_of_new h hin htasks htasks' hlines hmore
      have hflat : earlier.flatMap (c.step event).linesOf = earlier.flatMap c.linesOf := by
        rw [List.flatMap_def, List.flatMap_def, List.map_congr_left hsame]
      rw [hlines, hin.lines, htasks, htasks', List.flatMap_append, List.flatMap_append, hflat,
        List.flatMap_singleton, List.flatMap_singleton, hlast, List.append_assoc]

/-- What is asked for stays as it is, unless more is asked for. -/
theorem asks_of_step (c : Caller) {event : CallerEvent} (hask : ∀ what, event ≠ .ask what) :
    (c.step event).tasks.map Task.ask = c.tasks.map Task.ask := by
  apply List.ext_getElem
  · rw [List.length_map, List.length_map, length_of_step c hask]
  · intro t ht' ht
    rw [List.length_map] at ht ht'
    obtain ⟨task', hget, hsame, -⟩ := (step_lasts c event).tasks t _ (List.getElem?_eq_getElem ht)
    obtain ⟨_, rfl⟩ := List.getElem?_eq_some_iff.mp hget
    rw [List.getElem_map, List.getElem_map, hsame]

/-- What was sent is what each task sent, one after the other. -/
theorem InTurn.sent {c : Caller} (h : c.InTurn) :
    c.sent = c.tasks.flatMap fun task => (c.linesOf task).map c.lineAt := by
  rw [Caller.sent, h.lines, List.map_flatMap]

end Caller

end GameRelay.Outbound
