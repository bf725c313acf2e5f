import GameRelay.Proofs.Caller.InTurn
import GameRelay.Proofs.Caller.Reports

/-!
# A task among others

A caller with one more task goes on just as it does without that task, as long as
the task itself does nothing: every other task has moved on by one place at most,
and what it does, it does in both.
-/

set_option autoImplicit false

namespace GameRelay.Outbound

open GameRelay.Frame

structure Extra where
  place : Nat
  task : Task
  since : Nat := 0
  told : List CallerReport := []

def movedBy (place s : Nat) : Nat := if s < place then s else s + 1

def CallerEvent.movedBy (place : Nat) : CallerEvent → CallerEvent
  | .ask what => .ask what
  | .acquire t => .acquire (Outbound.movedBy place t)
  | .advance t => .advance (Outbound.movedBy place t)
  | .dialed t result => .dialed (Outbound.movedBy place t) result
  | .abandon t => .abandon (Outbound.movedBy place t)
  | .transport i event => .transport i event
  | .reap i => .reap i

def CallerEvent.acquires : CallerEvent → Bool
  | .acquire _ => true
  | _ => false

theorem movedBy_of_lt {place s : Nat} (h : s < place) : movedBy place s = s := if_pos h

section
variable {α : Type} (place s : Nat) (x : α) (l : List α)

theorem getElem?_insertIdx_movedBy : (l.insertIdx place x)[movedBy place s]? = l[s]? := by
  unfold movedBy
  rw [List.getElem?_insertIdx]
  split
  · rfl
  · rw [if_neg (by omega), if_neg (by omega), Nat.add_sub_cancel]

theorem modify_insertIdx_movedBy (f : α → α) :
    (l.insertIdx place x).modify (movedBy place s) f = (l.modify s f).insertIdx place x := by
  apply List.ext_getElem?
  intro n
  rw [List.getElem?_modify, List.getElem?_insertIdx, List.getElem?_insertIdx, List.length_modify]
  unfold movedBy
  rcases Nat.lt_trichotomy n place with hn | rfl | hn
  · simp only [if_pos hn, List.getElem?_modify]
    congr 2
    funext a
    congr 1
    split <;> simp
    omega
  · have hne : (if s < n then s else s + 1) ≠ n := by split <;> omega
    simp [hne]
  · simp only [if_neg (Nat.lt_asymm hn), if_neg (Nat.ne_of_gt hn), List.getElem?_modify]
    congr 2
    funext a
    congr 1
    split <;> simp <;> omega

theorem modify_insertIdx_self (f : α → α) :
    (l.insertIdx place x).modify place f = l.insertIdx place (f x) := by
  apply List.ext_getElem?
  intro n
  rw [List.getElem?_modify, List.getElem?_insertIdx, List.getElem?_insertIdx]
  rcases Nat.lt_trichotomy n place with hn | rfl | hn
  · simp [hn, Nat.ne_of_gt hn]
  · split <;> simp_all
  · simp [Nat.lt_asymm hn, Nat.ne_of_gt hn, Nat.ne_of_lt hn]

theorem insertIdx_append_of_le {place : Nat} {l : List α} (h : place ≤ l.length) (more : List α) :
    (l ++ more).insertIdx place x = l.insertIdx place x ++ more := by
  induction l generalizing place with
  | nil =>
    obtain rfl : place = 0 := Nat.le_zero.mp h
    rfl
  | cons y l ih =>
    cases place with
    | zero => rfl
    | succ place => exact congrArg (y :: ·) (ih (Nat.le_of_succ_le_succ h))

end

namespace Caller

def beside (c : Caller) (extra : Extra) : Caller :=
  { c with
    holder := c.holder.map (movedBy extra.place)
    tasks := c.tasks.insertIdx extra.place extra.task
    reports := c.reports.take extra.since ++ extra.told ++ c.reports.drop extra.since }

structure Fits (c : Caller) (extra : Extra) : Prop where
  place : extra.place ≤ c.tasks.length
  since : extra.since ≤ c.reports.length

section
variable {c c' : Caller} {extra : Extra} {t i : Nat}

theorem Fits.grow (h : c.Fits extra) (htasks : c.tasks.length ≤ c'.tasks.length)
    (hreports : c.reports.length ≤ c'.reports.length) : c'.Fits extra :=
  ⟨Nat.le_trans h.place htasks, Nat.le_trans h.since hreports⟩

/-! ## What a step is made of -/

theorem beside_tasks (c : Caller) (extra : Extra) (t : Nat) :
    (c.beside extra).tasks[movedBy extra.place t]? = c.tasks[t]? :=
  getElem?_insertIdx_movedBy ..

theorem verdict?_beside (c : Caller) (extra : Extra) (t : Nat) :
    (c.beside extra).verdict? (movedBy extra.place t) = c.verdict? t := by
  rw [verdict?, beside_tasks, verdict?]

theorem beside_reports (h : c.Fits extra) (more : List CallerReport) :
    (c.reports ++ more).take extra.since ++ extra.told ++ (c.reports ++ more).drop extra.since =
      c.reports.take extra.since ++ extra.told ++ c.reports.drop extra.since ++ more := by
  rw [List.take_append_of_le_length h.since, List.drop_append_of_le_length h.since,
    ← List.append_assoc]

theorem report_beside (h : c.Fits extra) (r : CallerReport) :
    (c.beside extra).report r = (c.report r).beside extra := by
  simp only [report, beside, beside_reports h]

theorem setProgress_beside (c : Caller) (extra : Extra) (t : Nat) (progress : Progress) :
    (c.beside extra).setProgress (movedBy extra.place t) progress =
      (c.setProgress t progress).beside extra := by
  simp only [setProgress, beside, modify_insertIdx_movedBy]

theorem record_beside (c : Caller) (extra : Extra) (t : Nat) (episode : Episode) :
    (c.beside extra).record (movedBy extra.place t) episode =
      (c.record t episode).beside extra := by
  simp only [record, beside, modify_insertIdx_movedBy]

theorem release_beside (c : Caller) (extra : Extra) (t : Nat) (progress : Progress) :
    (c.beside extra).release (movedBy extra.place t) progress =
      (c.release t progress).beside extra := by
  rw [release, setProgress_beside]
  rfl

theorem onLink_beside (h : c.Fits extra) (i : Nat) (event : LinkEvent) :
    (c.beside extra).onLink i event = (c.onLink i event).beside extra := by
  unfold onLink
  have hlinks : (c.beside extra).links = c.links := rfl
  rw [hlinks]
  cases c.links[i]? with
  | none => rfl
  | some l => simp only [beside, beside_reports h]

theorem install_beside (c : Caller) (extra : Extra) :
    (c.beside extra).install = c.install.beside extra := rfl

theorem attempt_beside (h : c.Fits extra) (t : Nat) (budget : Budget) (spec : CallSpec) :
    (c.beside extra).attempt (movedBy extra.place t) budget spec =
      (c.attempt t budget spec).beside extra := by
  have hfits : (c.record t (.attempt c.installed (c.nextCall c.installed))).Fits extra :=
    h.grow (by simp [record]) (Nat.le_refl _)
  have hnext : (c.beside extra).nextCall (c.beside extra).installed = c.nextCall c.installed := rfl
  have hinstalled : (c.beside extra).installed = c.installed := rfl
  rw [attempt, hnext, hinstalled, record_beside, onLink_beside hfits, setProgress_beside]
  rfl

theorem settle_beside (h : c.Fits extra) (t : Nat) (method : String) (budget : Budget)
    (o : Outcome) : (c.beside extra).settle (movedBy extra.place t) method budget o =
      (c.settle t method budget o).beside extra := by
  cases o with
  | ok v => exact release_beside ..
  | error error =>
    unfold settle
    simp only
    split
    · exact setProgress_beside ..
    · rw [report_beside h, release_beside]

/-! ## One step -/

theorem onTask_beside (c : Caller) (extra : Extra) (t : Nat) {f f' : Task → Caller}
    (hf : ∀ task, c.tasks[t]? = some task → f' task = (f task).beside extra) :
    (c.beside extra).onTask (movedBy extra.place t) f' = (c.onTask t f).beside extra := by
  unfold onTask
  rw [beside_tasks]
  cases ht : c.tasks[t]? with
  | none => rfl
  | some task => exact hf task ht

theorem acquire_beside (h : c.Fits extra) (t : Nat) (task : Task) :
    (c.beside extra).acquire (movedBy extra.place t) task =
      (c.acquire t task).beside extra := by
  have hheld : ({ c.beside extra with holder := some (movedBy extra.place t) } : Caller) =
      ({ c with holder := some t } : Caller).beside extra := rfl
  have hfits : ({ c with holder := some t } : Caller).Fits extra := h.grow (Nat.le_refl _)
    (Nat.le_refl _)
  unfold acquire
  simp only [hheld]
  cases task.ask.call? with
  | none => exact setProgress_beside ..
  | some spec => exact attempt_beside hfits ..

theorem advance_beside (h : c.Fits extra) (t : Nat) (task : Task) :
    (c.beside extra).advance (movedBy extra.place t) task =
      (c.advance t task).beside extra := by
  have hstage : ∀ i k, (c.beside extra).stage? i k = c.stage? i k := fun _ _ => rfl
  unfold advance
  simp only [hstage]
  cases task.progress with
  | calling budget i k =>
    simp only
    split
    · split
      · exact settle_beside h ..
      · rfl
    · split
      · exact onLink_beside h ..
      · rfl
    · rfl
  | leaving i k =>
    simp only
    split
    · exact onLink_beside h ..
    · exact release_beside ..
    · rfl
  | waiting | dialing | done | abandoned => rfl

theorem dialed_beside (h : c.Fits extra) (t : Nat) (task : Task) (result : Except RelayError Unit) :
    (c.beside extra).dialed (movedBy extra.place t) task result =
      (c.dialed t task result).beside extra := by
  have hrecord : ∀ episode, (c.record t episode).Fits extra := fun _ =>
    h.grow (by simp [record]) (Nat.le_refl _)
  have hreport : ∀ episode r, ((c.record t episode).report r).Fits extra := fun episode _ =>
    (hrecord episode).grow (Nat.le_refl _) (by simp [report])
  have hinstall : (c.record t (.dial true)).install.Fits extra :=
    (hrecord _).grow (Nat.le_refl _) (Nat.le_refl _)
  have hagain : ((c.record t (.dial true)).install.report .reconnected).Fits extra :=
    hinstall.grow (Nat.le_refl _) (by simp [report])
  unfold dialed
  split
  · split
    · rw [record_beside, install_beside, report_beside hinstall, attempt_beside hagain]
    · rw [record_beside, report_beside (hrecord _), report_beside (hreport ..), release_beside]
  · split
    · rw [record_beside, install_beside, release_beside]
    · rw [record_beside, report_beside (hrecord _), release_beside]
  · rfl

theorem abandon_beside (h : c.Fits extra) (t : Nat) (task : Task) :
    (c.beside extra).abandon (movedBy extra.place t) task =
      (c.abandon t task).beside extra := by
  have hstage : ∀ i k, (c.beside extra).stage? i k = c.stage? i k := fun _ _ => rfl
  unfold abandon
  simp only [hstage]
  cases task.progress with
  | waiting => exact setProgress_beside ..
  | calling budget i k =>
    simp only
    split
    · rw [onLink_beside h, setProgress_beside]
    · rfl
  | dialing => exact release_beside ..
  | done | leaving | abandoned => rfl

/-- A step of another task, or of a link. -/
theorem step_beside (h : c.Fits extra) (event : CallerEvent) :
    (c.beside extra).step (event.movedBy extra.place) = (c.step event).beside extra := by
  cases event with
  | ask what =>
    simp only [CallerEvent.movedBy, step, beside, insertIdx_append_of_le _ h.place]
  | acquire t =>
    apply onTask_beside
    intro task _
    have hholder : (c.beside extra).holder = c.holder.map (movedBy extra.place) := rfl
    rw [hholder]
    cases task.progress <;> cases c.holder <;> first | rfl | exact acquire_beside h ..
  | advance t => exact onTask_beside _ _ _ fun task _ => advance_beside h t task
  | dialed t result => exact onTask_beside _ _ _ fun task _ => dialed_beside h t task result
  | abandon t => exact onTask_beside _ _ _ fun task _ => abandon_beside h t task
  | transport i event => exact onLink_beside h i (.transport event)
  | reap i =>
    have hinstalled : (c.beside extra).installed = c.installed := rfl
    simp only [CallerEvent.movedBy, step, hinstalled]
    split
    · rfl
    · exact onLink_beside h i .discard

end

/-! ## Any number of steps -/

section
variable {c : Caller} {extra : Extra}

theorem Fits.step (h : c.Fits extra) (event : CallerEvent) : (c.step event).Fits extra := by
  apply h.grow _ (reports_of_step c event).length_le
  by_cases hask : ∃ what, event = .ask what
  · obtain ⟨what, rfl⟩ := hask
    simp [Caller.step]
  · exact Nat.le_of_eq (length_of_step c fun what hwhat => hask ⟨what, hwhat⟩).symm

theorem Fits.run (h : c.Fits extra) (events : List CallerEvent) : (c.run events).Fits extra := by
  induction events generalizing c with
  | nil => exact h
  | cons event rest ih => exact ih (h.step event)

theorem run_beside (h : c.Fits extra) (events : List CallerEvent) :
    (c.beside extra).run (events.map (.movedBy extra.place)) = (c.run events).beside extra := by
  induction events generalizing c with
  | nil => rfl
  | cons event rest ih =>
    rw [List.map_cons, run, run, step_beside h, ih (h.step event)]

end

end Caller

end GameRelay.Outbound
