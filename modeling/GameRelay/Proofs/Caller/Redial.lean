import GameRelay.Proofs.Caller.Invocation
import GameRelay.Proofs.Caller.Sending

/-!
# A dead link is never called on again

After a call was disconnected, or the connection was lost, the installed link is
shut down. It takes no line of any later task. A task that begins while it is
still installed has nothing queued before it has dialed, and dials once.
-/

set_option autoImplicit false

namespace GameRelay.Outbound

open GameRelay.Frame GameRelay.Json

def Episode.isDial : Episode → Bool
  | .dial _ => true
  | .attempt .. => false

def Task.dials (task : Task) : Nat := task.history.countP Episode.isDial

def Episode.link? : Episode → Option Nat
  | .attempt i _ => some i
  | .dial _ => none

def Task.lastLink? (task : Task) : Option Nat := (task.history.filterMap Episode.link?).getLast?

def Ask.Encodable (ask : Ask) : Prop := ∀ spec, ask.call? = some spec → spec.argument ≠ .unencodable

/-- So it is with whatever is asked about a game, and where only a new link is asked for. -/
theorem encodable_iff {ask : Ask} :
    ask.Encodable ↔ ∀ spec, ask = .call spec → spec.argument ≠ .unencodable := by
  cases ask with
  | create | remove => simp [Ask.Encodable, Ask.call?, CallSpec.game]
  | call | reconnect => simp [Ask.Encodable, Ask.call?]

namespace Caller

def Unbegun (c : Caller) (u : Nat) : Prop :=
  ∀ task, c.tasks[u]? = some task → task.progress = .waiting

/-! ## Attempts on a dead link -/

section
variable {c c' : Caller} {u : Nat} {other : Task} {i n : Nat}

theorem history_of_waiting {task : Task} (h : c.Sane) (ht : c.tasks[u]? = some task)
    (hp : task.progress = .waiting) : task.history = [] := by
  have hcourse := h.course u task ht
  obtain ⟨ask, progress, history⟩ := task
  obtain rfl : progress = .waiting := hp
  cases hcourse
  rfl

/-- The attempts of a task that begins later are none of the calls that there are. -/
theorem new_of_unbegun (h : c.Sane) (h' : c'.Sane) (hlasts : c.Lasts c') (hu : c.Unbegun u)
    (hother : c'.tasks[u]? = some other) (hmem : .attempt i n ∈ other.history) :
    c.call? i n = none := by
  by_contra hcall
  obtain ⟨t, task, ht, hmade⟩ := h.made i n (Option.isSome_iff_ne_none.mpr hcall)
  obtain ⟨task', ht', -, hhistory⟩ := hlasts.tasks t task ht
  obtain rfl := h'.own t u task' other i n ht' hother (hhistory.subset hmade) hmem
  rw [history_of_waiting h ht (hu task ht)] at hmade
  simp at hmade

theorem tooLate_of_attempt (h : c.Sane) (hlasts : c.Lasts c') {l : Link}
    (hl : c.links[i]? = some l) (hshut : l.shutDown = true) (hnew : c.call? i n = none)
    {call : Call} (hcall : c'.call? i n = some call) :
    ∃ l', c'.links[i]? = some l' ∧ Link.TooLate (l'.slot n call) := by
  obtain ⟨events, hl'⟩ := hlasts.links i l hl
  obtain ⟨l', hl'', hn⟩ := call?_eq_some_iff.mp hcall
  obtain rfl : l.run events = l' := Option.some.inj (hl'.symm.trans hl'')
  have hlate : l.calls.length ≤ n := by
    simpa [call?, hl] using hnew
  exact ⟨_, hl', Link.tooLate_of_shutDown (tidy_of_linked h.linked hl) hshut events hn hlate⟩

theorem not_mem_linesOf (h : c.Sane) (h' : c'.Sane) (hlasts : c.Lasts c') {l : Link}
    (hl : c.links[i]? = some l) (hshut : l.shutDown = true) (hu : c.Unbegun u)
    (hother : c'.tasks[u]? = some other) : (i, n) ∉ c'.linesOf other := by
  intro hline
  obtain ⟨hqueued, hmem⟩ := mem_linesOf.mp hline
  have hnew := new_of_unbegun h h' hlasts hu hother hmem
  obtain ⟨spec, -, call, hcall, -⟩ := made_of_course (h'.course u other hother) hmem
  obtain ⟨l', hl', hlate⟩ := tooLate_of_attempt h hlasts hl hshut hnew hcall
  obtain ⟨l'', hl'', hn⟩ := queued_of_mem_lines hqueued
  obtain rfl : l' = l'' := Option.some.inj (hl'.symm.trans hl'')
  exact Link.not_queued_of_tooLate hlate hn

/-- An attempt on a dead link that was made later and has a line can only be refused. -/
theorem refused_of_returned (h : c.Sane) (hlasts : c.Lasts c') {l : Link}
    (hl : c.links[i]? = some l) (hshut : l.shutDown = true) (hnew : c.call? i n = none)
    {spec : CallSpec} {o : Outcome} (hline : spec.argument ≠ .unencodable)
    (hreturned : c'.Returned spec i n o) : o = .error .shutdown := by
  obtain ⟨call, hcall, rfl, hs⟩ := hreturned
  obtain ⟨l', -, hlate⟩ := tooLate_of_attempt h hlasts hl hshut hnew hcall
  rcases Link.refused_of_tooLate hlate hline with hs' | hs'
  · simp [hs] at hs'
  · rw [hs] at hs'
    exact Option.some.inj (Stage.ended.inj hs')

end

/-! ## A task that begins on a dead link -/

structure Redialed (c : Caller) (task : Task) : Prop where
  first : ∀ line ∈ c.linesOf task, ∃ before after, task.history = before ++ .dial true :: after ∧
    .attempt line.1 line.2 ∉ before
  once : ∀ verdict, task.progress = .done verdict → task.dials = 1

section
variable {c c' : Caller} {u : Nat} {asked other : Task}

/-- Who takes the lock to call begins with an attempt on the installed link. -/
theorem attempt_of_acquire (h : c.Sane) (hu : c.tasks[u]? = some asked)
    (hp : asked.progress = .waiting) (hfree : c.holder = none) {spec : CallSpec}
    (hspec : asked.ask.call? = some spec) : ∃ begun, (c.step (.acquire u)).tasks[u]? = some begun ∧
      begun.ask = asked.ask ∧
      begun.history = [.attempt c.installed (c.nextCall c.installed)] := by
  have hstep : c.step (.acquire u) =
      ({ c with holder := some u } : Caller).attempt u .firstAttempt spec := by
    simp [step, onTask, hu, hp, hfree, acquire, hspec]
  have hu' : ({ c with holder := some u } : Caller).tasks[u]? = some asked := hu
  have hgoes := goes_attempt hu' .firstAttempt spec
  rw [hstep]
  refine ⟨_, hgoes.after, rfl, ?_⟩
  show asked.history ++ [.attempt c.installed (c.nextCall c.installed)] = _
  rw [history_of_waiting h hu hp, List.nil_append]

theorem redialed_of_call (h : c.Sane) (h' : c'.Sane) (hplaced : c'.Placed) (hlasts : c.Lasts c')
    {l : Link} (hl : c.links[c.installed]? = some l) (hshut : l.shutDown = true)
    (hun : c.Unbegun u) (hother : c'.tasks[u]? = some other) {spec : CallSpec}
    (hspec : other.ask.call? = some spec) (hline : spec.argument ≠ .unencodable) {n : Nat}
    (hfirst : [.attempt c.installed n] <+: other.history) : c'.Redialed other := by
  have hcourse := h'.course u other hother
  have hspared : ∀ k, (c.installed, k) ∉ c'.linesOf other := fun k =>
    not_mem_linesOf h h' hlasts hl hshut hun hother
  constructor
  case first =>
    rintro ⟨j, k⟩ hmem
    have hne : j ≠ c.installed := fun hj => hspared k (hj ▸ hmem)
    obtain ⟨-, hattempt⟩ := mem_linesOf.mp hmem
    -- Only a task that was retried called on another link, and its dial came before.
    rcases history_cases hcourse with hh | ⟨i, m, hh⟩ | ⟨b, hh⟩ | ⟨i, m, hh⟩ | ⟨i, m, j', k', hh⟩
    · simp [hh] at hattempt
    · rw [hh] at hfirst hattempt
      simp_all
    · simp [hh] at hattempt
    · rw [hh] at hfirst hattempt
      simp_all
    · rw [hh] at hfirst
      obtain ⟨rfl, -⟩ : c.installed = i ∧ n = m := by simpa using hfirst
      exact ⟨[.attempt c.installed m], [.attempt j' k'], hh, by simp [hne]⟩
  case once =>
    intro verdict hdone
    have hstand := hplaced u other hother
    rw [hdone] at hcourse hstand
    obtain ⟨o, -, hinvocation⟩ := invocation_of_done hspec hcourse hstand
    generalize hh : other.history = history at hinvocation hfirst
    cases hinvocation with
    | kept i k _ hreturned hne =>
      -- A dead link can only refuse, so the task does not end here.
      obtain ⟨rfl, rfl⟩ : c.installed = i ∧ n = k := by simpa using hfirst
      have hnew := new_of_unbegun h h' hlasts hun hother (i := c.installed) (n := n) (by simp [hh])
      exact absurd (refused_of_returned h hlasts hl hshut hnew hline hreturned) hne
    | lost i k => rw [Task.dials, hh]; rfl
    | again i k => rw [Task.dials, hh]; rfl

theorem redialed_of_acquire (h : c.Sane) (hplaced : c.Placed) {l : Link}
    (hl : c.links[c.installed]? = some l) (hshut : l.shutDown = true)
    (hu : c.tasks[u]? = some asked) (hp : asked.progress = .waiting) (hfree : c.holder = none)
    (hline : asked.ask.Encodable) (more : List CallerEvent)
    (hother : ((c.step (.acquire u)).run more).tasks[u]? = some other) :
    ((c.step (.acquire u)).run more).Redialed other := by
  have h' := run_sane (step_sane h (.acquire u)) more
  have hplaced' := run_placed more (step_sane h (.acquire u))
    (step_placed h.linked.last hplaced (.acquire u))
  have hlater := run_lasts (c.step (.acquire u)) more
  have hlasts := (step_lasts c (.acquire u)).trans hlater
  generalize (c.step (.acquire u)).run more = c' at h' hplaced' hlater hlasts hother
  have hask : other.ask = asked.ask := by
    obtain ⟨task, ht, hask, -⟩ := hlasts.tasks u asked hu
    obtain rfl := Option.some.inj (ht.symm.trans hother)
    exact hask
  have hun : c.Unbegun u := by
    intro task ht
    obtain rfl := Option.some.inj (ht.symm.trans hu)
    exact hp
  cases hspec : asked.ask.call? with
  | some spec =>
    obtain ⟨begun, hbegun, -, hhistory⟩ := attempt_of_acquire h hu hp hfree hspec
    obtain ⟨task, ht, -, hfirst⟩ := hlater.tasks u begun hbegun
    obtain rfl := Option.some.inj (ht.symm.trans hother)
    exact redialed_of_call h h' hplaced' hlasts hl hshut hun hother (hask ▸ hspec)
      (hline spec hspec) (hhistory ▸ hfirst)
  | none =>
    have hcourse := h'.course u other hother
    obtain ⟨ask, progress, history⟩ := other
    obtain rfl : ask = asked.ask := hask
    constructor
    case first =>
      rintro ⟨j, k⟩ hmem
      obtain ⟨-, hattempt⟩ := mem_linesOf.mp hmem
      cases hcourse <;> simp_all
    case once =>
      rintro verdict rfl
      cases hcourse with
      | replaced succeeded => simp [Task.dials, Episode.isDial]
      | returned | lost => simp_all

end

/-! ## Dials that succeed -/

def succeeded (c : Caller) : Nat := (c.tasks.flatMap Task.history).count (.dial true)

theorem tasks_of_goes {c c' : Caller} {t : Nat} {task task' : Task} (h : Goes c c' t task task') :
    c'.tasks = c.tasks.set t task' := by
  have hlt := (List.getElem?_eq_some_iff.mp h.before).1
  apply List.ext_getElem?
  intro u
  by_cases hut : u = t
  · subst hut
    simp [h.after, hlt]
  · rw [h.others u hut, List.getElem?_set_ne (Ne.symm hut)]

theorem succeeded_of_goes {c c' : Caller} {t : Nat} {task task' : Task}
    (h : Goes c c' t task task') :
    c'.succeeded + task.history.count (.dial true) =
      c.succeeded + task'.history.count (.dial true) := by
  obtain ⟨hlt, htask⟩ := List.getElem?_eq_some_iff.mp h.before
  have hsplit : c.tasks = c.tasks.take t ++ task :: c.tasks.drop (t + 1) := by
    rw [← htask, List.getElem_cons_drop, List.take_append_drop]
  have hset := tasks_of_goes h
  rw [List.set_eq_take_append_cons_drop, if_pos hlt] at hset
  have hbefore := congrArg (fun tasks => (tasks.flatMap Task.history).count (.dial true)) hsplit
  have hafter := congrArg (fun tasks => (tasks.flatMap Task.history).count (.dial true)) hset
  simp only [List.flatMap_append, List.flatMap_cons, List.count_append] at hbefore hafter
  simp only [succeeded]
  omega

theorem step_installed {c : Caller} (hlast : c.links.length = c.installed + 1)
    (h : c.installed = c.succeeded) (event : CallerEvent) :
    (c.step event).installed = (c.step event).succeeded := by
  cases step_turns c event with
  | none htasks _ hinstalled => rw [hinstalled, h, succeeded, succeeded, htasks]
  | asked what htasks _ hinstalled => simp [hinstalled, h, succeeded, htasks]
  | went t task task' hgoes hturn =>
    have hsum := succeeded_of_goes hgoes
    cases hturn with
    | began _ _ _ _ _ hinstalled | redialed _ _ _ hinstalled | lost _ _ _ hinstalled
    | replaced _ _ hinstalled | notReplaced _ _ hinstalled =>
      simp [List.count_append] at hsum
      omega
    | beganDial _ _ _ _ hinstalled | refused _ _ _ _ _ hinstalled
    | finished _ _ _ _ _ _ _ _ hinstalled | gaveUpWaiting _ _ hinstalled
    | gaveUpCall _ _ _ _ _ hinstalled | gaveUpDial _ _ _ hinstalled | left _ _ _ _ _ _ hinstalled =>
      simp only at hsum
      omega

/-- A link is replaced by each dial that succeeds, and by nothing else. -/
theorem run_installed (events : List CallerEvent) {c : Caller} (hsane : c.Sane)
    (h : c.installed = c.succeeded) : (c.run events).installed = (c.run events).succeeded := by
  induction events generalizing c with
  | nil => exact h
  | cons event rest ih =>
    exact ih (step_sane hsane event) (step_installed hsane.linked.last h event)

/-! ## After a disconnected or a lost call -/

/-- Both errors leave the link of the last attempt shut down. -/
theorem shut_of_error {c : Caller} (h : c.Sane)
    (hfew : ∀ l ∈ c.links, l.calls.length < UInt64.size) {t i : Nat} {task : Task}
    (ht : c.tasks[t]? = some task) {error : RelayError}
    (hdone : task.progress = .done (.outcome (.error error)))
    (herror : error = .disconnected ∨ error = .lostConnection) (hi : task.lastLink? = some i) :
    ∃ l, c.links[i]? = some l ∧ l.shutDown = true := by
  have hcourse := h.course t task ht
  obtain ⟨ask, progress, history⟩ := task
  obtain rfl : progress = .done (.outcome (.error error)) := hdone
  cases hcourse with
  | lost spec j k _ hrefused =>
    obtain rfl : j = i := Option.some.inj hi
    exact hrefused.shut h.linked
  | returned spec budget j k _ _ _ htried hreturned =>
    obtain rfl : j = i := by
      cases htried <;> exact Option.some.inj hi
    have hdisconnected : error = .disconnected :=
      herror.resolve_right fun hlost => hreturned.ne_lost h.linked (hlost ▸ rfl)
    obtain ⟨call, hcall, -, hs⟩ := hreturned
    obtain ⟨l, hl, hk⟩ := call?_eq_some_iff.mp hcall
    have hlen := hfew l (List.mem_of_getElem? hl)
    obtain ⟨events, rfl⟩ := h.linked.reached l (List.mem_of_getElem? hl)
    exact ⟨_, hl, Link.shutDown_of_disconnected events hlen (List.mem_of_getElem? hk)
      (hdisconnected ▸ congrArg Stage.outcome? hs)⟩

structure Redials (c : Caller) : Prop where
  /-- Every dial that succeeds replaces the link, and nothing else does. -/
  replaced : c.installed = c.succeeded
  /-- No task that begins later queues anything on that link. -/
  spared : ∀ (t : Nat) (task : Task) (error : RelayError) (i : Nat), c.tasks[t]? = some task →
    task.progress = .done (.outcome (.error error)) →
    (error = .disconnected ∨ error = .lostConnection) → task.lastLink? = some i →
    ∀ u, c.Unbegun u → ∀ (more : List CallerEvent) (other : Task),
    (c.run more).tasks[u]? = some other → ∀ k, (i, k) ∉ (c.run more).linesOf other
  /-- A task that takes the lock while that link is still installed dials first, and once. -/
  redials : ∀ (t : Nat) (task : Task) (error : RelayError), c.tasks[t]? = some task →
    task.progress = .done (.outcome (.error error)) →
    (error = .disconnected ∨ error = .lostConnection) → task.lastLink? = some c.installed →
    ∀ (u : Nat) (asked : Task), c.tasks[u]? = some asked → asked.progress = .waiting →
    c.holder = none → asked.ask.Encodable → ∀ (more : List CallerEvent) (other : Task),
    ((c.step (.acquire u)).run more).tasks[u]? = some other →
    ((c.step (.acquire u)).run more).Redialed other

theorem run_redials (events : List CallerEvent)
    (hfew : ∀ l ∈ (({} : Caller).run events).links, l.calls.length < UInt64.size) :
    (({} : Caller).run events).Redials := by
  have h := run_sane fresh_sane events
  have hplaced := run_placed events fresh_sane fresh_placed
  have hinstalled := run_installed events fresh_sane rfl
  generalize ({} : Caller).run events = c at h hplaced hfew hinstalled
  constructor
  case replaced => exact hinstalled
  case spared =>
    intro t task error i ht hdone herror hi u hu more other hother k
    obtain ⟨l, hl, hshut⟩ := shut_of_error h hfew ht hdone herror hi
    exact not_mem_linesOf h (run_sane h more) (run_lasts c more) hl hshut hu hother
  case redials =>
    intro t task error ht hdone herror hi u asked hu hp hfree hline more other hother
    obtain ⟨l, hl, hshut⟩ := shut_of_error h hfew ht hdone herror hi
    exact redialed_of_acquire h hplaced hl hshut hu hp hfree hline more hother

/-- A link that is shut down stays so, and a caller goes on from it with a dial. -/
theorem run_shutdown_redials (linkEvents : List LinkEvent)
    (hlen : (({} : Link).run linkEvents).calls.length < UInt64.size) (events : List CallerEvent)
    (hfew : ∀ l ∈ (({} : Caller).run events).links, l.calls.length < UInt64.size) :
    (({} : Link).run linkEvents).ShutdownFinal ∧ (({} : Caller).run events).Redials :=
  ⟨Link.run_shutdownFinal linkEvents hlen, run_redials events hfew⟩

/-- One call is cut off by the end of the link, the next one is refused. -/
def calledAtTheEnd : List LinkEvent :=
  [.start "m" .unencodable .boolean, .start "m" (.value .null) .boolean, .call 1 .register,
    .call 1 .queue, .transport (.finish .closed), .transport .read, .call 1 .collect,
    .call 1 .leave, .start "m" (.value .null) .boolean, .call 2 .register]

/-- The first create is cut off, and the relay does not take a new link for the next one. -/
def lostAfterCreate : List CallerEvent :=
  [.ask (.create "room1" "pw"), .acquire 0, .advance 0, .advance 0,
    .transport 0 (.finish .closed), .transport 0 .read, .advance 0, .advance 0, .advance 0,
    .ask (.create "room2" "pw"), .acquire 1, .advance 1, .advance 1, .dialed 1 (.error .shutdown)]

theorem shutdown_redials_at_the_end :
    (({} : Link).run calledAtTheEnd).shutDown = true ∧
      (({} : Caller).run lostAfterCreate).installed = 0 ∧
      (({} : Link).run calledAtTheEnd).ShutdownFinal ∧
      (({} : Caller).run lostAfterCreate).Redials :=
  ⟨by decide +kernel, by decide +kernel,
    run_shutdown_redials calledAtTheEnd (by decide +kernel) lostAfterCreate (by decide +kernel)⟩

/-- The first create is cut off, and the link is replaced on request before the next one. -/
def replacedBetween : List CallerEvent :=
  [.ask (.create "room1" "pw"), .acquire 0, .advance 0, .advance 0,
    .transport 0 (.finish .closed), .transport 0 .read, .advance 0, .advance 0, .advance 0,
    .ask .reconnect, .acquire 1, .dialed 1 (.ok ()),
    .ask (.create "room2" "pw"), .acquire 2, .advance 2, .advance 2]

/-- The connection is lost, and what is asked for next has no JSON form. -/
def unencodableAfterLost : List CallerEvent :=
  [.transport 0 (.finish .closed), .transport 0 .read,
    .ask (.create "room1" "pw"), .acquire 0, .advance 0, .advance 0, .dialed 0 (.error .shutdown),
    .ask (.call ⟨"m", .unencodable, .boolean⟩), .acquire 1, .advance 1]

/-- After a disconnected call the next create may queue a line and dial nothing, and after a
lost connection a call without a JSON form fails and dials nothing. -/
theorem undialed_after_replaced_or_lost :
    (∃ cut next, (({} : Caller).run replacedBetween).tasks[0]? = some cut ∧
      cut.progress = .done (.outcome (.error .disconnected)) ∧
      (({} : Caller).run replacedBetween).tasks[2]? = some next ∧
      next.ask = .create "room2" "pw" ∧
      (({} : Caller).run replacedBetween).linesOf next = [(1, 0)] ∧ next.dials = 0) ∧
    ∃ lost next, (({} : Caller).run unencodableAfterLost).tasks[0]? = some lost ∧
      lost.progress = .done (.outcome (.error .lostConnection)) ∧
      (({} : Caller).run unencodableAfterLost).tasks[1]? = some next ∧
      next.progress = .done (.outcome (.error .unencodable)) ∧ next.dials = 0 :=
  ⟨⟨_, _, rfl, rfl, rfl, rfl, rfl, rfl⟩, _, _, rfl, rfl, rfl, rfl, rfl⟩

end Caller

end GameRelay.Outbound
