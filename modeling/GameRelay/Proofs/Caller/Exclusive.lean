import GameRelay.Proofs.Caller.Redial
import GameRelay.Proofs.Caller.Underway
import GameRelay.Proofs.Link.InOrder

/-!
# Exclusive use of the installed link

One task at a time has the lock. While a call of the installed link is not over the
link is neither replaced nor dropped, and a task dials only to replace the link that
was installed when it took the lock. On every link the requests are numbered from 0
on, without a gap.
-/

set_option autoImplicit false

namespace GameRelay.Outbound

open GameRelay.Frame GameRelay.Json GameRelay.Text

def Progress.mayReplace : Progress → Bool
  | .calling .firstAttempt .. | .dialing _ => true
  | .waiting | .calling .retried .. | .done _ | .leaving .. | .abandoned => false

theorem Progress.holds_of_mayReplace {progress : Progress} (h : progress.mayReplace = true) :
    progress.holds = true := by
  revert h
  fun_cases Progress.mayReplace progress <;> simp [Progress.holds]

namespace Caller

/-! ## What a dial replaces -/

def Unmoved (c : Caller) (t i : Nat) : Prop :=
  ∃ task, c.tasks[t]? = some task ∧ task.progress ≠ .waiting ∧
    (task.progress.mayReplace = true → c.installed = i)

section
variable {c c' : Caller} {t i : Nat} {task task' : Task}

theorem Turn.mayReplace (h : Turn c c' t task task') (hs : Stand c t task.progress task.history)
    (hbegun : task.progress ≠ .waiting) : task'.progress ≠ .waiting ∧
      (task'.progress.mayReplace = true →
        task.progress.mayReplace = true ∧ c'.installed = c.installed) := by
  cases h with
  | began _ hp | beganDial hp | gaveUpWaiting hp => exact absurd hp hbegun
  | refused j n hp _ _ hinstalled =>
    exact ⟨by simp, fun _ => ⟨by simp [hp, Progress.mayReplace], hinstalled⟩⟩
  | redialed budget hp =>
    -- A task that dials in the middle of its call has used up its budget.
    obtain rfl : budget = .retried := by
      obtain ⟨ask, progress, history⟩ := task
      obtain rfl : progress = .dialing (some budget) := hp
      cases hs
      rfl
    exact ⟨by simp, by simp [Progress.mayReplace]⟩
  | finished | lost | replaced | notReplaced | gaveUpCall | gaveUpDial | left =>
    exact ⟨by simp, by simp [Progress.mayReplace]⟩

theorem step_unmoved (hplaced : c.Placed) (h : c.Unmoved t i) (event : CallerEvent) :
    (c.step event).Unmoved t i := by
  obtain ⟨task, ht, hbegun, hi⟩ := h
  rcases step_task hplaced event ht with ⟨task', ht', hturn⟩ | ⟨ht', hstays⟩
  · obtain ⟨hbegun', hbefore⟩ := hturn.mayReplace (hplaced t task ht) hbegun
    refine ⟨task', ht', hbegun', fun hmay => ?_⟩
    obtain ⟨hmay, hinstalled⟩ := hbefore hmay
    exact hinstalled.trans (hi hmay)
  · refine ⟨task, ht', hbegun, fun hmay => ?_⟩
    exact (hstays (Progress.holds_of_mayReplace hmay)).2.trans (hi hmay)

theorem run_unmoved (events : List CallerEvent) {c : Caller} (hguarded : c.Guarded)
    (h : c.Unmoved t i) : (c.run events).Unmoved t i := by
  induction events generalizing c with
  | nil => exact h
  | cons event rest ih =>
    exact ih (step_guarded hguarded event) (step_unmoved hguarded.placed h event)

theorem step_acquire (ht : c.tasks[t]? = some task) (hp : task.progress = .waiting)
    (hfree : c.holder = none) : c.step (.acquire t) = c.acquire t task := by
  simp [step, onTask, ht, hp, hfree]

theorem holder_of_acquire (c : Caller) (t : Nat) (task : Task) :
    (c.acquire t task).holder = some t := by
  unfold acquire
  split
  · exact attempt_holder _ _ _ _
  · rfl

theorem unmoved_of_acquire (ht : c.tasks[t]? = some task) :
    (c.acquire t task).Unmoved t c.installed := by
  have ht' : ({ c with holder := some t } : Caller).tasks[t]? = some task := ht
  unfold acquire
  split
  · rename_i spec _
    exact ⟨_, (goes_attempt ht' .firstAttempt spec).after, by simp, fun _ => by simp⟩
  · exact ⟨_, (goes_setProgress ht' _).after, by simp, fun _ => rfl⟩

end

/-! ## The order of the lines -/

section
variable {c c' : Caller}

theorem step_inOrder (h : c.Guarded) (hasks : ∀ task ∈ c.tasks, task.ask.Encodable)
    (ho : ∀ l ∈ c.links, l.InOrder) (event : CallerEvent) :
    ∀ l ∈ (c.step event).links, l.InOrder := by
  apply step_links h Link.fresh_inOrder _ ho event
  intro earlier event hallowed hbefore
  cases hallowed with
  | goesOn hstart => exact Link.inOrder_of_step earlier hstart hbefore
  | starts task spec htask hspec hover =>
    exact Link.inOrder_of_start hover _ _ (hasks task htask spec hspec) hbefore

theorem asks_of_lasts {P : Ask → Prop} (h : c.Lasts c') (hasks : ∀ task ∈ c'.tasks, P task.ask) :
    ∀ task ∈ c.tasks, P task.ask := by
  intro task htask
  obtain ⟨t, ht⟩ := List.mem_iff_getElem?.mp htask
  obtain ⟨task', ht', hask, -⟩ := h.tasks t task ht
  exact hask ▸ hasks task' (List.mem_of_getElem? ht')

theorem run_inOrder (events : List CallerEvent) {c : Caller} (h : c.Guarded)
    (hasks : ∀ task ∈ (c.run events).tasks, task.ask.Encodable) (ho : ∀ l ∈ c.links, l.InOrder) :
    ∀ l ∈ (c.run events).links, l.InOrder := by
  induction events generalizing c with
  | nil => exact ho
  | cons event rest ih =>
    have hbefore := asks_of_lasts (run_lasts c (event :: rest)) hasks
    exact ih (step_guarded h event) hasks (step_inOrder h hbefore ho event)

end

end Caller

def Ask.isOffered : Ask → Bool
  | .create .. | .remove .. | .reconnect => true
  | .call _ => false

theorem Ask.encodable_of_isOffered {ask : Ask} (h : ask.isOffered = true) : ask.Encodable := by
  rw [encodable_iff]
  rintro spec rfl
  simp [Ask.isOffered] at h

theorem Ask.argument_of_isOffered {ask : Ask} {spec : CallSpec} (h : ask.isOffered = true)
    (hspec : ask.call? = some spec) : ∃ g, spec.argument = Link.gameArgument g := by
  cases ask with
  | create name password =>
    obtain rfl := Option.some.inj hspec
    exact ⟨⟨name, password⟩, rfl⟩
  | remove name =>
    obtain rfl := Option.some.inj hspec
    exact ⟨.named name, rfl⟩
  | reconnect => simp [Ask.call?] at hspec
  | call => simp [Ask.isOffered] at h

namespace Caller

/-- A call of a link asks for what its task is for. -/
theorem argument_of_call {c : Caller} (h : c.Sane)
    (hasks : ∀ task ∈ c.tasks, task.ask.isOffered = true) {l : Link} (hl : l ∈ c.links) :
    ∀ call ∈ l.calls, ∃ g, call.argument = Link.gameArgument g := by
  intro call hcall
  obtain ⟨i, hi⟩ := List.mem_iff_getElem?.mp hl
  obtain ⟨k, hk⟩ := List.mem_iff_getElem?.mp hcall
  have hmade : c.call? i k = some call := call?_eq_some_iff.mpr ⟨l, hi, hk⟩
  obtain ⟨t, task, ht, hmem⟩ := h.made i k (by simp [hmade])
  obtain ⟨spec, hspec, call', hcall', rfl⟩ := made_of_course (h.course t task ht) hmem
  obtain rfl : call' = call := Option.some.inj (hcall'.symm.trans hmade)
  exact Ask.argument_of_isOffered (hasks task (List.mem_of_getElem? ht)) hspec

/-! ## Exclusive use -/

structure Exclusive (c : Caller) : Prop where
  /-- The lock is with the task that is between taking it and letting go of it. -/
  lock : ∀ t, c.holder = some t ↔ ∃ task, c.tasks[t]? = some task ∧ task.progress.holds = true
  alone : ∀ (t u : Nat) (task other : Task), c.tasks[t]? = some task → c.tasks[u]? = some other →
    task.progress.holds = true → other.progress.holds = true → t = u
  /-- Who waits for the lock takes it where it is free. -/
  takes : ∀ (t : Nat) (task : Task), c.tasks[t]? = some task → task.progress = .waiting →
    c.holder = none → (c.step (.acquire t)).holder = some t
  /-- A call that is not over is on the installed link, and its task has the lock. -/
  underWay : ∀ i k call, c.call? i k = some call → call.isOver = false → i = c.installed ∧
    ∃ (t : Nat) (task : Task), c.holder = some t ∧ c.tasks[t]? = some task ∧
      task.progress.call? = some (i, k)
  /-- No step replaces the link of such a call, or drops it. -/
  kept : ∀ k call, c.call? c.installed k = some call → call.isOver = false → ∀ event,
    (c.step event).installed = c.installed ∧
      ∃ l, (c.step event).links[c.installed]? = some l ∧ l.dropped = false
  /-- Whenever a task dials, the link is installed that was when it took the lock. -/
  dials : ∀ (t : Nat) (task : Task), c.tasks[t]? = some task → task.progress = .waiting →
    c.holder = none → ∀ (more : List CallerEvent) (task' : Task) (budget : Option Budget),
    ((c.step (.acquire t)).run more).tasks[t]? = some task' → task'.progress = .dialing budget →
    ((c.step (.acquire t)).run more).installed = c.installed
  /-- The lines that went to the queue of a link have the ids from 0 on, in order. -/
  numbered : (∀ task ∈ c.tasks, task.ask.isOffered = true) → ∀ l ∈ c.links,
    l.calls.length < UInt64.size →
    (Text.lines (l.written ++ l.unwritten)).map Link.requestId? =
      (List.range l.queued.length).map some
  /-- Until a link is shut down, only its last call can be without its line. -/
  unbroken : (∀ task ∈ c.tasks, task.ask.isOffered = true) → ∀ l ∈ c.links,
    l.shutDown = false → ∀ k, k + 1 < l.calls.length → k ∈ l.queued

/-- At any moment of a caller, wherever its tasks are given up. -/
theorem run_exclusive (events : List CallerEvent) : (({} : Caller).run events).Exclusive := by
  have h := run_guarded events fresh_guarded
  have hinOrder : (∀ task ∈ (({} : Caller).run events).tasks, task.ask.isOffered = true) →
      ∀ l ∈ (({} : Caller).run events).links, l.InOrder := by
    intro hasks
    apply run_inOrder events fresh_guarded
    · exact fun task htask => Ask.encodable_of_isOffered (hasks task htask)
    · intro l hl
      obtain rfl : l = {} := List.mem_singleton.mp hl
      exact Link.fresh_inOrder
  generalize ({} : Caller).run events = c at h hinOrder
  have hlock := holder_iff h.held h.placed
  constructor
  case lock => exact hlock
  case alone =>
    intro t u task other ht hu hholds hholds'
    have ht' := (hlock t).mpr ⟨task, ht, hholds⟩
    have hu' := (hlock u).mpr ⟨other, hu, hholds'⟩
    exact Option.some.inj (ht'.symm.trans hu')
  case takes =>
    intro t task ht hp hfree
    rw [step_acquire ht hp hfree]
    exact holder_of_acquire c t task
  case underWay =>
    intro i k call hcall hgoing
    exact holder_of_going h hcall hgoing
  case kept =>
    intro k call hcall hgoing event
    have hinstalled := installed_of_going h hcall hgoing event
    have hlinked := (step_guarded h event).sane.linked
    have hlt : (c.step event).installed < (c.step event).links.length := by
      rw [hlinked.last]
      exact Nat.lt_succ_self _
    have hl := List.getElem?_eq_getElem hlt
    exact ⟨hinstalled, _, by rw [← hinstalled, hl], hlinked.live _ hl⟩
  case dials =>
    intro t task ht hp hfree more task' budget ht' hdials
    have hunmoved := step_acquire ht hp hfree ▸ unmoved_of_acquire ht
    obtain ⟨task'', ht'', -, hi⟩ :=
      run_unmoved more (step_guarded h (.acquire t)) hunmoved
    obtain rfl := Option.some.inj (ht'.symm.trans ht'')
    exact hi (by simp [hdials, Progress.mayReplace])
  case numbered =>
    intro hasks l hl hlen
    have ho := hinOrder hasks l hl
    have hgames := argument_of_call h.sane hasks hl
    obtain ⟨earlier, rfl⟩ := h.sane.linked.reached l hl
    exact Link.requestIds_of_inOrder earlier hlen hgames ho
  case unbroken =>
    intro hasks l hl hopen k hk
    exact (hinOrder hasks l hl).mem_queued hopen hk

/-- Two tasks want to call on a dead link. The first one is given up in its second call. -/
def bothFindItDead : List CallerEvent :=
  [.ask (.create "room1" "pw"), .ask (.remove "room2"), .transport 0 (.finish .closed),
    .transport 0 .read, .acquire 0, .acquire 1, .advance 0, .advance 0, .acquire 1,
    .dialed 0 (.ok ()), .advance 0, .advance 0, .abandon 0, .acquire 1, .advance 0, .advance 0,
    .acquire 1, .advance 1, .advance 1]

example : (({} : Caller).run bothFindItDead).installed = 1 ∧
    (({} : Caller).run bothFindItDead).holder = some 1 ∧
    (({} : Caller).run bothFindItDead).links.map Link.queued = [[], [0, 1]] := by
  decide +kernel

end Caller

end GameRelay.Outbound
