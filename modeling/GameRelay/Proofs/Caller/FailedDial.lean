import GameRelay.Proofs.Caller.Behind

/-!
# Dials that fail

A dial that fails ends the task that waits for it, and lets go of the lock. Nothing
else changes: the installed link stays what it is, whether it can be used or not.
So a task that only dials leaves no trace but its report.
-/

set_option autoImplicit false

namespace GameRelay.Outbound

open GameRelay.Frame GameRelay.Json

def Link.adding (l : Link) (spec : CallSpec) (line : String) (stage : Stage) : Link :=
  { l with
    nextId := l.nextId + 1
    calls := l.calls ++ [{
      id := l.nextId, method := spec.method, argument := spec.argument, want := spec.want, line
      stage }] }

theorem modify_of_getElem? {α : Type} {l : List α} {n : Nat} {x : α} (h : l[n]? = some x)
    (f : α → α) : l.modify n f = l.set n (f x) := by
  rw [List.modify_eq_set_getElem?, h]
  rfl

section
variable {l : Link} {spec : CallSpec} {line : String}

theorem Link.step_adding (hlive : l.dropped = false)
    (hline : spec.argument.callLine? spec.method l.nextId = some line) :
    l.step (.start spec.method spec.argument spec.want) = l.adding spec line .numbered := by
  simp [step, hlive, start, hline, adding]

theorem Link.calls_adding (l : Link) (spec : CallSpec) (line : String) (stage : Stage) :
    (l.adding spec line stage).calls[l.calls.length]? =
      some ⟨l.nextId, spec.method, spec.argument, spec.want, line, stage, .empty, none⟩ := by
  simp [adding]

/-- A link that is shut down refuses it, and keeps its table. -/
theorem Link.step_adding_refused (hshut : l.shutDown = true) (spec : CallSpec) (line : String) :
    (l.adding spec line .numbered).step (.call l.calls.length .register) =
      l.adding spec line (.ended (some (.error .shutdown))) := by
  have hstep : (l.adding spec line .numbered).step (.call l.calls.length .register) =
      (l.adding spec line .numbered).setStage l.calls.length
        (.ended (some (.error .shutdown))) := by
    simp [step, callStep, register, adding, hshut]
  rw [hstep, setStage, modify_of_getElem? (calls_adding l spec line .numbered)]
  simp [adding]

end

namespace Caller

def undialed (c : Caller) (t : Nat) (asked : Task) (verdict : Verdict)
    (told : List CallerReport) : Caller :=
  { c with
    holder := none
    tasks := c.tasks.set t
      { asked with progress := .done verdict, history := asked.history ++ [.dial false] }
    reports := c.reports ++ told }

def holding (c : Caller) (t : Nat) (l : Link) (task : Task) : Caller :=
  { c with holder := some t, links := c.links.set c.installed l, tasks := c.tasks.set t task }

section
variable {c : Caller} {t : Nat} {asked : Task}

/-! ## The end of a dial -/

theorem release_undialed (ht : c.tasks[t]? = some asked) (verdict : Verdict)
    (told : List CallerReport) {d : Caller}
    (hd : d = { c.record t (.dial false) with reports := c.reports ++ told }) :
    d.release t (.done verdict) = c.undialed t asked verdict told := by
  subst hd
  have hrecorded : (c.record t (.dial false)).tasks[t]? =
      some { asked with history := asked.history ++ [.dial false] } := (goes_record ht _).after
  simp only [release, setProgress, modify_of_getElem? hrecorded, undialed]
  simp only [record, modify_of_getElem? ht, List.set_set]

/-- Where only a new link was asked for. -/
theorem step_undialed (ht : c.tasks[t]? = some asked) (hp : asked.progress = .dialing none)
    (error : RelayError) : c.step (.dialed t (.error error)) =
      c.undialed t asked (.connected false) [.dialFailed error] := by
  simp only [step, onTask, ht, dialed, hp]
  exact release_undialed ht _ [.dialFailed error] rfl

/-- Where a call was to be made again. -/
theorem step_undialed_call (ht : c.tasks[t]? = some asked) {budget : Budget}
    (hp : asked.progress = .dialing (some budget)) {spec : CallSpec}
    (hspec : asked.ask.call? = some spec) (error : RelayError) :
    c.step (.dialed t (.error error)) =
      c.undialed t asked (.outcome (.error .lostConnection)) [.dialFailed error, .lost] := by
  simp only [step, onTask, ht, dialed, hp, hspec]
  exact release_undialed ht _ [.dialFailed error, .lost] (by simp [report, record])

/-! ## A call that is refused and dials in vain -/

theorem record_installed (c : Caller) (t : Nat) (episode : Episode) :
    (c.record t episode).installed = c.installed := rfl

theorem onLink_silent {i : Nat} {l : Link} {event : LinkEvent} (hl : c.links[i]? = some l)
    (hsilent : (l.step event).reports = l.reports) :
    c.onLink i event = { c with links := c.links.set i (l.step event) } := by
  simp [onLink, hl, hsilent]

/-- Taking the lock, the call takes an id. -/
theorem step_acquire_call {spec : CallSpec} {l : Link} (ht : c.tasks[t]? = some asked)
    (hp : asked.progress = .waiting) (hfree : c.holder = none)
    (hspec : asked.ask.call? = some spec) (hl : c.links[c.installed]? = some l)
    (hlive : l.dropped = false) {line : String}
    (hline : spec.argument.callLine? spec.method l.nextId = some line) :
    c.step (.acquire t) = c.holding t (l.adding spec line .numbered)
      { asked with
        progress := .calling .firstAttempt c.installed l.calls.length
        history := asked.history ++ [.attempt c.installed l.calls.length] } := by
  have hstep : c.step (.acquire t) =
      ({ c with holder := some t } : Caller).attempt t .firstAttempt spec := by
    simp [step, onTask, ht, hp, hfree, acquire, hspec]
  have hnext : ({ c with holder := some t } : Caller).nextCall c.installed = l.calls.length := by
    simp [nextCall, hl]
  have hrecorded := (goes_record (c := { c with holder := some t }) ht
    (.attempt c.installed l.calls.length)).after
  have hstart := Link.step_adding hlive hline
  have hlink : (({ c with holder := some t } : Caller).record t
      (.attempt c.installed l.calls.length)).links[c.installed]? = some l := hl
  rw [hstep, attempt, hnext]
  rw [record_installed, onLink_silent hlink (by rw [hstart]; rfl), hstart]
  simp only [setProgress, modify_of_getElem? hrecorded, holding]
  simp only [record, modify_of_getElem? ht, List.set_set]

section
variable {l : Link} {task : Task} {spec : CallSpec}

theorem holding_tasks (ht : t < c.tasks.length) (task : Task) :
    (c.holding t l task).tasks[t]? = some task :=
  List.getElem?_set_self ht

theorem holding_links (hi : c.installed < c.links.length) (task : Task) :
    (c.holding t l task).links[c.installed]? = some l :=
  List.getElem?_set_self hi

/-- Asking for its place in the table, it is refused. -/
theorem step_advance_refused {budget : Budget} {line : String} (ht : t < c.tasks.length)
    (hi : c.installed < c.links.length)
    (hp : task.progress = .calling budget c.installed l.calls.length) (hshut : l.shutDown = true) :
    (c.holding t (l.adding spec line .numbered) task).step (.advance t) =
      c.holding t (l.adding spec line (.ended (some (.error .shutdown)))) task := by
  have htask := holding_tasks (l := l.adding spec line .numbered) ht
  have hlink := holding_links (t := t) (l := l.adding spec line .numbered) hi
  have hstage := stage?_of_call (hlink task) (Link.calls_adding l spec line .numbered)
  have hrefused := Link.step_adding_refused hshut spec line
  simp only [step, onTask, htask, advance, hp, hstage, Stage.next?]
  rw [onLink_silent (hlink task) (by rw [hrefused]; rfl), hrefused]
  simp [holding]

/-- Having been refused once, it asks for another link. -/
theorem step_advance_dial {k : Nat} {call : Call} (ht : t < c.tasks.length)
    (hi : c.installed < c.links.length) (hspec : task.ask.call? = some spec)
    (hp : task.progress = .calling .firstAttempt c.installed k) (hk : l.calls[k]? = some call)
    (hs : call.stage = .ended (some (.error .shutdown))) :
    (c.holding t l task).step (.advance t) =
      c.holding t l { task with progress := .dialing (some .retried) } := by
  have htask := holding_tasks (l := l) ht task
  have hstage := stage?_of_call (holding_links (t := t) hi task) hk
  rw [hs] at hstage
  simp only [step, onTask, htask, advance, hp, hstage, hspec, settle, Budget.afterFailure,
    setProgress, modify_of_getElem? htask]
  simp [holding]

/-- The call takes an id of the installed link, is refused, and comes to nothing. -/
theorem run_undialed {line : String} (ht : c.tasks[t]? = some asked)
    (hp : asked.progress = .waiting) (hfree : c.holder = none)
    (hspec : asked.ask.call? = some spec) (hl : c.links[c.installed]? = some l)
    (hlive : l.dropped = false) (hshut : l.shutDown = true)
    (hline : spec.argument.callLine? spec.method l.nextId = some line) (error : RelayError) :
    c.run [.acquire t, .advance t, .advance t, .dialed t (.error error)] =
      { c with
        links := c.links.set c.installed
          (l.adding spec line (.ended (some (.error .shutdown)))) }.undialed t
        { asked with history := asked.history ++ [Episode.attempt c.installed l.calls.length] }
        (.outcome (.error .lostConnection)) [.dialFailed error, .lost] := by
  have hlt := (List.getElem?_eq_some_iff.mp ht).1
  have hi := (List.getElem?_eq_some_iff.mp hl).1
  obtain ⟨begun, hbegun⟩ : ∃ begun : Task, begun =
      { asked with
        progress := .calling .firstAttempt c.installed l.calls.length
        history := asked.history ++ [.attempt c.installed l.calls.length] } := ⟨_, rfl⟩
  have hspec' : begun.ask.call? = some spec := hbegun ▸ hspec
  have hp' : begun.progress = .calling .firstAttempt c.installed l.calls.length := hbegun ▸ rfl
  rw [run, step_acquire_call ht hp hfree hspec hl hlive hline, ← hbegun, run,
    step_advance_refused hlt hi hp' hshut, run,
    step_advance_dial hlt hi hspec' hp' (Link.calls_adding l spec line _) rfl, run,
    step_undialed_call (holding_tasks hlt { begun with progress := .dialing (some .retried) }) rfl
      hspec', hbegun]
  simp [run, undialed, holding]

end

end

/-! ## A task that only dials, put into a run -/

def newcomer (place : Nat) : Extra := ⟨place, { ask := .reconnect }, 0, []⟩

def disappointed (place since : Nat) (error : RelayError) : Extra :=
  ⟨place, ⟨.reconnect, .done (.connected false), [.dial false]⟩, since, [.dialFailed error]⟩

def withFailedDial (place : Nat) (error : RelayError) (waits during after : List CallerEvent) :
    List CallerEvent :=
  .ask .reconnect :: waits.map (.movedBy place) ++
    (.acquire place :: during.map (.movedBy place) ++
      (.dialed place (.error error) :: after.map (.movedBy place)))

section
variable {c : Caller}

theorem step_newcomer (h : c.Held) :
    c.step (.ask .reconnect) = c.beside (newcomer c.tasks.length) := by
  have hholder : c.holder.map (movedBy c.tasks.length) = c.holder := by
    cases hheld : c.holder with
    | none => rfl
    | some t =>
      obtain ⟨task, ht, -⟩ := h t hheld
      rw [Option.map_some, movedBy_of_lt (List.getElem?_eq_some_iff.mp ht).1]
  simp [step, beside, newcomer, hholder]

theorem fits_newcomer (c : Caller) : c.Fits (newcomer c.tasks.length) :=
  ⟨Nat.le_refl _, Nat.zero_le _⟩

theorem task_beside {extra : Extra} (h : extra.place ≤ c.tasks.length) :
    (c.beside extra).tasks[extra.place]? = some extra.task := by
  rw [beside, List.getElem?_insertIdx_self, if_pos h]

def dialer (place : Nat) : Extra := ⟨place, { ask := .reconnect, progress := .dialing none }, 0, []⟩

theorem step_acquire_newcomer {place : Nat} (h : c.Fits (newcomer place))
    (hfree : c.holder = none) :
    (c.beside (newcomer place)).step (.acquire place) = c.behind (dialer place) := by
  have htask : (c.beside (newcomer place)).tasks[place]? = some { ask := .reconnect } :=
    task_beside h.place
  have hholder : (c.beside (newcomer place)).holder = none := by simp [beside, hfree]
  simp only [step, onTask, htask, hholder, acquire, Ask.call?, setProgress]
  simp only [beside, newcomer, modify_insertIdx_self, behind, dialer]

theorem step_dialed_dialer {place : Nat} (h : c.Fits (dialer place)) (hfree : c.holder = none)
    (error : RelayError) :
    (c.behind (dialer place)).step (.dialed place (.error error)) =
      c.beside (disappointed place c.reports.length error) := by
  have htask : (c.behind (dialer place)).tasks[place]? = some (dialer place).task :=
    task_beside h.place
  have hset : ∀ task, (c.behind (dialer place)).tasks.set place task =
      c.tasks.insertIdx place task := by
    intro task
    rw [← modify_of_getElem? htask fun _ => task]
    exact modify_insertIdx_self ..
  rw [step_undialed htask rfl, undialed, hset]
  simp [behind, beside, dialer, disappointed, hfree]

/-- The run is the same beside it. -/
theorem run_withFailedDial (h : c.Guarded) (error : RelayError)
    (waits during after : List CallerEvent) (hfree : (c.run waits).holder = none)
    (hduring : ∀ event ∈ during, event.acquires = false) :
    c.run (withFailedDial c.tasks.length error waits during after) =
      (c.run (waits ++ during ++ after)).beside (disappointed c.tasks.length
        (c.run (waits ++ during)).reports.length error) := by
  obtain ⟨place, hplace⟩ : ∃ place, place = c.tasks.length := ⟨_, rfl⟩
  have hnew : c.Fits (newcomer place) := hplace ▸ fits_newcomer c
  have hwaited := hnew.run waits
  have hdials : (c.run waits).Fits (dialer place) := ⟨hwaited.place, Nat.zero_le _⟩
  obtain ⟨hrun, hstill⟩ := run_behind (run_guarded waits h) hfree hdials during hduring
  have hdialed := hdials.run during
  have hends : ((c.run waits).run during).Fits
      (disappointed place ((c.run waits).run during).reports.length error) :=
    ⟨hdialed.place, Nat.le_refl _⟩
  have hwait : c.run (.ask .reconnect :: waits.map (.movedBy place)) =
      (c.run waits).beside (newcomer place) := by
    rw [run, step_newcomer h.held, ← hplace]
    exact run_beside hnew waits
  have hdial : ((c.run waits).beside (newcomer place)).run
      (.acquire place :: during.map (.movedBy place)) =
        ((c.run waits).run during).behind (dialer place) := by
    rw [run, step_acquire_newcomer hwaited hfree]
    exact hrun
  have hend : (((c.run waits).run during).behind (dialer place)).run
      (.dialed place (.error error) :: after.map (.movedBy place)) =
        (((c.run waits).run during).run after).beside
          (disappointed place ((c.run waits).run during).reports.length error) := by
    rw [run, step_dialed_dialer hdialed hstill]
    exact run_beside hends after
  rw [← hplace, withFailedDial, run_append, run_append, run_append, run_append, hwait, hdial, hend]

end

end Caller

end GameRelay.Outbound
