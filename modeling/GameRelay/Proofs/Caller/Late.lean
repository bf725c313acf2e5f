import GameRelay.Proofs.Caller.Abandon

/-!
# After a task was given up

A late answer to a call that was given up finds nobody. A call that comes later
returns what the lines with its own id say.
-/

set_option autoImplicit false

namespace GameRelay.Outbound

open GameRelay.Frame GameRelay.Json

/-! ## What decides a call -/

def Heard.decides (id : UInt64) : Heard → Bool
  | .line text => (answer? id text).isSome
  | .shutDown => true

/-- Lines that are no answer to a call change nothing for it. -/
theorem firstAnswer_filter (id : UInt64) (log : List Heard) :
    firstAnswer id (log.filter (Heard.decides id)) = firstAnswer id log := by
  induction log with
  | nil => rfl
  | cons what rest ih =>
    cases what with
    | shutDown => simp [List.filter_cons, Heard.decides, firstAnswer]
    | line text =>
      cases ha : answer? id text with
      | none => simpa [Heard.decides, firstAnswer, ha] using ih
      | some response => simp [Heard.decides, firstAnswer, ha]

def Link.decision (l : Link) (call : Call) (n : Nat) : Mailbox :=
  firstAnswer call.id ((l.heard.drop n).filter (Heard.decides call.id))

theorem Mailbox.outcome?_ne_shutdown (mailbox : Mailbox) (want : Want) :
    mailbox.outcome? want ≠ some (.error .shutdown) := by
  cases mailbox with
  | empty | cut => simp [outcome?]
  | answered response => simpa [outcome?] using Link.response_outcome_ne.1

namespace Link

/-! ## Late answers -/

/-- Two calls of one id are at least 2^64 calls apart. -/
theorem Numbered.apart {l : Link} (hn : l.Numbered) {j k : Nat} {cj ck : Call}
    (hj : l.calls[j]? = some cj) (hk : l.calls[k]? = some ck) (hid : cj.id = ck.id)
    (hlt : k < j) : k + UInt64.size ≤ j := by
  rw [hn.ids j cj hj, hn.ids k ck hk] at hid
  have hmod := congrArg UInt64.toNat hid
  simp only [UInt64.toNat_ofNat'] at hmod
  simp only [UInt64.size]
  omega

def Reused (l : Link) (k : Nat) (id : UInt64) : Prop :=
  ∃ j call, k + UInt64.size ≤ j ∧ l.calls[j]? = some call ∧ call.id = id ∧ call.isOver = false

section
variable {l l' : Link} {k : Nat} {call : Call}

theorem reused_of_key (h : l.Tidy) (ho : l.Orderly) (hk : l.calls[k]? = some call)
    (hover : call.isOver = true) (hid : call.id ∈ l.table.map Prod.fst) :
    l.Reused k call.id := by
  obtain ⟨j, other, hj, hsame, he⟩ := call_of_key h hid
  have hgoing := (pending_of_listed h hj he).going
  have hlast := ho.last j other hj hgoing
  have hlt := (List.getElem?_eq_some_iff.mp hk).1
  have hne : k ≠ j := by
    rintro rfl
    obtain rfl := Option.some.inj (hk.symm.trans hj)
    simp [hover] at hgoing
  exact ⟨j, other, h.numbered.apart hj hk hsame (by omega), hj, hsame, hgoing⟩

structure Discards (l : Link) (k : Nat) (l' : Link) : Prop where
  table : l'.table = l.table
  shutDown : l'.shutDown = l.shutDown
  others : ∀ j, j ≠ k → l'.calls[j]? = l.calls[j]?
  stages : l'.calls.map Call.stage = l.calls.map Call.stage
  hand : ∀ j response, l'.reader = .handing j response → l.reader = .handing j response

theorem discards_of_read {id : UInt64} {text : String} {response : Response}
    (hreads : l.Reads text) (hanswer : answer? id text = some response)
    (hout : id ∉ l.table.map Prod.fst) (hmove : l.Move (.transport .read) l') :
    l.Discards k l' := by
  cases hmove with
  | none | overheard => exact ⟨rfl, rfl, fun _ _ => rfl, rfl, fun _ _ hr => hr⟩
  | readEnded incoming reports hidle hno => exact absurd hreads (hno text)
  | taken other incoming response' id' j hreads' hanswer' hl =>
    obtain rfl := reads_unique hreads' hreads
    obtain rfl := answer?_id hanswer' hanswer
    exact absurd (List.mem_map_of_mem (f := Prod.fst) (mem_of_lookup hl)) hout

theorem discards_of_hand {response : Response} (hr : l.reader = .handing k response) :
    l.Discards k (l.step (.transport .hand)) := by
  simp only [step, transport, hand, hr]
  refine ⟨rfl, rfl, ?_, ?_, by simp⟩
  · intro j hj
    simp [Ne.symm hj]
  · have hstage : Call.stage ∘ (fun call : Call => { call with mailbox := .answered response }) =
        Call.stage := rfl
    apply List.ext_getElem?
    intro j
    by_cases hjk : k = j <;> simp [hjk, hstage]

end

end Link

namespace Caller

section
variable {c : Caller} {t i k : Nat} {task : Task} {l : Link} {call : Call}

/-! ## Calls that a task has left -/

/-- A task has attempted the call that it is at. -/
theorem attempt_of_call? {ask : Ask} {progress : Progress} {history : List Episode}
    (h : c.Course ask progress history) (hat : progress.call? = some (i, k)) :
    .attempt i k ∈ history := by
  cases h with
  | calling _ _ j n _ _ htried | leaving _ _ j n _ _ htried =>
    obtain ⟨rfl, rfl⟩ : j = i ∧ n = k := by simpa [Progress.call?] using hat
    exact htried.mem
  | waiting | refused | replacing | returned | lost | replaced | abandoned | abandonedDial
  | abandonedCall => simp [Progress.call?] at hat

/-- What a task has attempted and is not at is over. -/
theorem over_of_attempt (h : c.Guarded) (ht : c.tasks[t]? = some task)
    (hmem : .attempt i k ∈ task.history) (hleft : task.progress.call? ≠ some (i, k))
    (hcall : c.call? i k = some call) : call.isOver = true := by
  by_contra hgoing
  obtain ⟨u, other, hu, hat⟩ := h.attended i k call hcall (by simpa using hgoing)
  have hmem' := attempt_of_call? (h.sane.course u other hu) hat
  obtain rfl := h.sane.own t u task other i k ht hu hmem hmem'
  obtain rfl := Option.some.inj (ht.symm.trans hu)
  exact hleft hat

/-! ## The link that is installed -/

/-- Where a task waits that began on the `i`-th link, that one is installed, or the next one
that the task has dialed. -/
theorem installed_of_awaits (h : c.Guarded) (ht : c.tasks[t]? = some task)
    (hp : task.progress = .waiting) (hfree : c.holder = none) (more : List CallerEvent)
    {c' : Caller} (hc' : c' = (c.step (.acquire t)).run more) {task' : Task}
    (ht' : c'.tasks[t]? = some task') (ha : c'.Awaits task'.progress) :
    c'.installed = c.installed ∨
      (c'.installed = c.installed + 1 ∧ .dial true ∈ task'.history) := by
  have hbegun := step_guarded h (.acquire t)
  have h' := hc' ▸ run_guarded more hbegun
  obtain ⟨task'', ht'', hleft, hunmoved⟩ :=
    hc' ▸ run_unmoved more hbegun (step_acquire ht hp hfree ▸ unmoved_of_acquire ht)
  obtain rfl := Option.some.inj (ht'.symm.trans ht'')
  have hcourse := h'.sane.course t task' ht'
  have hstand := h'.placed t task' ht'
  obtain ⟨ask, progress, history⟩ := task'
  cases ha with
  | lock => exact absurd rfl hleft
  | dial budget => exact .inl (hunmoved rfl)
  | answer budget j n _ =>
    cases budget with
    | firstAttempt => exact .inl (hunmoved rfl)
    | retried =>
      -- The first attempt of the task was on the link that was installed when it began.
      cases hcourse with
      | calling spec _ _ _ _ hspec =>
        obtain ⟨last, hlast, hask, -⟩ := (hc' ▸ run_lasts c (.acquire t :: more)).tasks t task ht
        obtain rfl := Option.some.inj (hlast.symm.trans ht')
        obtain ⟨begun, ht₁, -, hbegan⟩ := attempt_of_acquire h.sane ht hp hfree (hask ▸ hspec)
        obtain ⟨last, hlast, -, hfirst⟩ :=
          (hc' ▸ run_lasts (c.step (.acquire t)) more).tasks t begun ht₁
        obtain rfl := Option.some.inj (hlast.symm.trans ht')
        cases hstand with
        | second m _ _ hnext =>
          obtain ⟨hm, -⟩ : c.installed = m ∧ _ := by simpa [hbegan] using hfirst
          exact .inr ⟨by rw [hnext, hm], by simp⟩

/-! ## Calls that come later -/

/-- A call that queued its line has returned what its own lines say. -/
theorem Returned.decision (h : c.Linked) (ho : ∀ l ∈ c.links, l.Orderly) {spec : CallSpec}
    {o : Outcome} (hreturned : c.Returned spec i k o) (hl : c.links[i]? = some l)
    (hq : k ∈ l.queued) : ∃ call n, l.calls[k]? = some call ∧ call.spec = spec ∧
      call.since = some n ∧ (l.decision call n).outcome? spec.want = some o := by
  obtain ⟨call, hcall, rfl, hs⟩ := hreturned
  obtain ⟨l', hl', hk⟩ := call?_eq_some_iff.mp hcall
  obtain rfl := Option.some.inj (hl'.symm.trans hl)
  have hlines : (l'.slot k call).lines ≠ 0 := fun hzero => List.count_eq_zero.mp hzero hq
  obtain ⟨n, hn⟩ := Option.isSome_iff_exists.mp ((counted_of_call h hl hk).registered hlines)
  have hdelivered := (ho l' (List.mem_of_getElem? hl)).delivered k call hk
  refine ⟨call, n, hk, rfl, hn, ?_⟩
  rw [Link.decision, firstAnswer_filter]
  exact hdelivered.outcome n o hn (congrArg Stage.outcome? hs) hlines

theorem not_queued_of_refused (h : c.Linked) {spec : CallSpec}
    (hrefused : c.Returned spec i k (.error .shutdown)) (hl : c.links[i]? = some l) :
    k ∉ l.queued :=
  List.count_eq_zero.mp ((count_lines hl k).symm.trans (lines_of_refused h hrefused))

/-- The attempt of an invocation that queued its line is the one that it returned from. -/
theorem Invocation.returned {spec : CallSpec} {history : List Episode} {o : Outcome}
    (hinvocation : c.Invocation spec history o) (h : c.Linked) (hl : c.links[i]? = some l)
    (hmem : .attempt i k ∈ history) (hq : k ∈ l.queued) : c.Returned spec i k o := by
  cases hinvocation with
  | kept j n _ hreturned =>
    obtain ⟨rfl, rfl⟩ : i = j ∧ k = n := by simpa using hmem
    exact hreturned
  | lost j n hrefused =>
    obtain ⟨rfl, rfl⟩ : i = j ∧ k = n := by simpa using hmem
    exact absurd hq (not_queued_of_refused h hrefused hl)
  | again j n _ hrefused hreturned =>
    obtain ⟨rfl, rfl⟩ | ⟨rfl, rfl⟩ : (i = j ∧ k = n) ∨ (i = j + 1 ∧ k = 0) := by
      simpa using hmem
    · exact absurd hq (not_queued_of_refused h hrefused hl)
    · exact hreturned

/-! ## A decided call returns -/

def takeAnswer (t i : Nat) : List CallerEvent :=
  [.transport i .hand, .advance t, .advance t, .advance t]

theorem advance_calling (ht : c.tasks[t]? = some task) {budget : Budget}
    (hp : task.progress = .calling budget i k) (hl : c.links[i]? = some l)
    (hk : l.calls[k]? = some call) (step : CallStep) (hnext : call.stage.next? = some step) :
    c.step (.advance t) = c.onLink i (.call k step) := by
  have hs := stage?_of_call hl hk
  cases hstage : call.stage with
  | ended o => simp [hstage, Stage.next?] at hnext
  | numbered | registered | waiting | leaving =>
    rw [hstage] at hs hnext
    simp [Caller.step, onTask, ht, advance, hp, hs, hnext]

theorem goes_settle (ht : c.tasks[t]? = some task) {o : Outcome} (ho : o ≠ .error .shutdown)
    (method : String) (budget : Budget) :
    Goes c (c.settle t method budget o) t task { task with progress := .done (.outcome o) } := by
  cases o with
  | ok v => exact goes_release ht _
  | error error =>
    simp only [settle]
    split
    · rename_i hafter
      obtain ⟨-, -, rfl⟩ := afterFailure_reconnect hafter
      exact absurd rfl ho
    · rename_i budget' error' hafter
      obtain rfl := afterFailure_fail hafter
      have hreport : Goes c (c.report (.callFailed method error')) t task task :=
        goes_of_tasks ht rfl
      exact hreport.trans (goes_release hreport.after _)

/-- The call of a task that waits needs the reader's hand once it is decided, and the task
three steps. -/
theorem run_takeAnswer (h : c.Linked) (ho : ∀ l ∈ c.links, l.Orderly)
    (ht : c.tasks[t]? = some task) {spec : CallSpec} (hspec : task.ask.call? = some spec)
    {budget : Budget} (hp : task.progress = .calling budget i k) (hl : c.links[i]? = some l)
    (hk : l.calls[k]? = some call) (hs : call.stage = .waiting) {n : Nat} (hn : call.since = some n)
    {o : Outcome} (hdecided : (l.decision call n).outcome? call.want = some o) :
    Goes c (c.run (takeAnswer t i)) t task { task with progress := .done (.outcome o) } := by
  have hletter : (l.slot k call).letter.outcome? call.want = some o := by
    have hdelivered := (ho l (List.mem_of_getElem? hl)).delivered k call hk
    rw [Link.decision, firstAnswer_filter] at hdecided
    rw [hdelivered.letter n hn (by simp [Link.slot, hs, Stage.isEntered])]
    exact hdecided
  have hne : o ≠ .error .shutdown := fun he =>
    Mailbox.outcome?_ne_shutdown _ _ (he ▸ hletter)
  have hcoherent := Link.run_coherent (tidy_of_linked h hl).coherent
    [.transport .hand, .call k .collect]
  -- The answer is handed over.
  have hk₁ := Link.hand_mailbox (l := l) hk
  have hgoes := goes_of_tasks ht (onLink_tasks c i (.transport .hand))
  have hl₁ := links_onLink hl (.transport .hand)
  rw [takeAnswer, run, Caller.step]
  generalize c.onLink i (.transport .hand) = c₁ at hgoes hl₁
  -- The call finds it in its mailbox.
  have hk₂ := Link.collect_stage hk₁ hs hletter
  have hcollect := advance_calling hgoes.after hp hl₁ hk₁ .collect (by simp [hs, Stage.next?])
  have hgoes := hgoes.onLink i (.call k .collect)
  have hl₂ := links_onLink hl₁ (.call k .collect)
  rw [run, hcollect]
  generalize c₁.onLink i (.call k .collect) = c₂ at hgoes hl₂
  -- It takes its entry out of the table.
  obtain ⟨ended, hk₃, hended⟩ := Link.leave_stage hcoherent hk₂ rfl
  have hleave := advance_calling hgoes.after hp hl₂ hk₂ .leave rfl
  have hgoes := hgoes.onLink i (.call k .leave)
  have hl₃ := links_onLink hl₂ (.call k .leave)
  rw [run, hleave]
  generalize c₂.onLink i (.call k .leave) = c₃ at hgoes hl₃
  -- The task is done with it.
  have hsettle : c₃.step (.advance t) = c₃.settle t spec.method budget o := by
    simp [Caller.step, onTask, hgoes.after, advance, hp, stage?_of_call hl₃ hk₃, hended, hspec]
  rw [run, hsettle]
  exact hgoes.trans (goes_settle hgoes.after hne spec.method budget)

end

/-! ## Clean -/

structure Clean (c : Caller) : Prop where
  /-- A task that waits can be given up, and that needs nobody else. -/
  givenUp : ∀ (t : Nat) (task : Task), c.tasks[t]? = some task → c.Awaits task.progress →
    c.GivenUp t task (c.run (giveUp t))
  /-- Nor does the rest of it, wherever others came in between. -/
  leaving : ∀ (t : Nat) (task : Task) (i k : Nat), c.tasks[t]? = some task →
    task.progress = .leaving i k → c.GivenUp t task (c.run (leaveCall t))
  /-- Each of these steps leaves alone which link is installed, and all that the links are but
  their calls and tables. -/
  quiet : ∀ t, c.Quiet (c.step (.abandon t))
  leaves : ∀ (t : Nat) (task : Task), c.tasks[t]? = some task →
    ((∃ i k, task.progress = .leaving i k) ∨ task.progress = .abandoned) →
    c.Quiet (c.step (.advance t))
  /-- With the step that ends it the lock is free, if the task had it, and no call pending. -/
  frees : ∀ (t : Nat) (task task' : Task) (event : CallerEvent), c.tasks[t]? = some task →
    task.progress.holds = true → (c.step event).tasks[t]? = some task' →
    task'.progress = .abandoned →
    (c.step event).holder = none ∧ ∀ l ∈ (c.step event).links, l.table = []
  /-- The link is installed that was when the task took the lock, or the one that it dialed. -/
  installed : ∀ (t : Nat) (task : Task), c.tasks[t]? = some task → task.progress = .waiting →
    c.holder = none → ∀ (more : List CallerEvent) (c' : Caller) (task' : Task),
    c' = (c.step (.acquire t)).run more → c'.tasks[t]? = some task' → c'.Awaits task'.progress →
    (c'.run (giveUp t)).installed = c.installed ∨
      ((c'.run (giveUp t)).installed = c.installed + 1 ∧ .dial true ∈ task'.history)
  whole : c.links.length = c.installed + 1 ∧
    ∃ l, c.links[c.installed]? = some l ∧ l.dropped = false
  /-- The calls of a task that was given up have no entry. A later call can only have their
  id from 2^64 calls on. -/
  gone : ∀ (t : Nat) (task : Task) (i k : Nat) (l : Link) (call : Call),
    c.tasks[t]? = some task → task.progress = .abandoned → .attempt i k ∈ task.history →
    c.links[i]? = some l → l.calls[k]? = some call → call.isOver = true ∧
      (call.id, k) ∉ l.table ∧ (call.id ∈ l.table.map Prod.fst → l.Reused k call.id)
  /-- An answer that comes after that is discarded. -/
  late : ∀ (t : Nat) (task : Task) (i k : Nat) (l : Link) (call : Call) (text : String),
    c.tasks[t]? = some task → task.progress = .abandoned → .attempt i k ∈ task.history →
    c.links[i]? = some l → l.calls[k]? = some call → l.Reads text →
    answer? call.id text ≠ none → l.Reused k call.id ∨
      ∃ l', (c.step (.transport i .read)).links = c.links.set i l' ∧ l.Discards k l'
  /-- So is one that the reader already had in hand. -/
  inHand : ∀ (i k : Nat) (l : Link) (response : Response), c.links[i]? = some l →
    l.reader = .handing k response →
    ∃ l', (c.step (.transport i .hand)).links = c.links.set i l' ∧ l.Discards k l'
  /-- An invocation that queued its request has returned what the lines with its own id say. -/
  returned : ∀ (t : Nat) (task : Task) (spec : CallSpec) (o : Outcome) (i k : Nat) (l : Link),
    c.tasks[t]? = some task → task.ask.call? = some spec → task.progress = .done (.outcome o) →
    .attempt i k ∈ task.history → c.links[i]? = some l → k ∈ l.queued →
    ∃ call n, l.calls[k]? = some call ∧ call.spec = spec ∧ call.since = some n ∧
      (l.decision call n).outcome? spec.want = some o
  /-- One that waits can return it as soon as they say anything. -/
  returns : ∀ (t : Nat) (task : Task) (budget : Budget) (i k : Nat) (l : Link) (call : Call)
    (n : Nat) (o : Outcome), c.tasks[t]? = some task → task.progress = .calling budget i k →
    c.links[i]? = some l → l.calls[k]? = some call → call.stage = .waiting →
    call.since = some n → (l.decision call n).outcome? call.want = some o →
    Goes c (c.run (takeAnswer t i)) t task { task with progress := .done (.outcome o) }

/-- At any moment of a caller, wherever its tasks were given up. -/
theorem run_clean (events : List CallerEvent) : (({} : Caller).run events).Clean := by
  have h := run_guarded events fresh_guarded
  have horderly := orderly_of_run events
  have hleaving := run_leaving events fresh_guarded fresh_leaving
  generalize ({} : Caller).run events = c at h horderly hleaving
  have hlinked := h.sane.linked
  have hover : ∀ (t : Nat) (task : Task) (i k : Nat) (l : Link) (call : Call),
      c.tasks[t]? = some task → task.progress = .abandoned → .attempt i k ∈ task.history →
      c.links[i]? = some l → l.calls[k]? = some call → call.isOver = true := by
    intro t task i k l call ht hp hmem hl hk
    exact over_of_attempt h ht hmem (by simp [hp, Progress.call?])
      (call?_eq_some_iff.mpr ⟨l, hl, hk⟩)
  constructor
  case givenUp =>
    intro t task ht ha
    exact givenUp_of_awaits h hleaving ht ha
  case leaving =>
    intro t task i k ht hp
    exact givenUp_of_leaving h hleaving ht hp
  case quiet => exact abandon_quiet c
  case leaves =>
    intro t task ht hp
    exact leave_quiet ht hp
  case frees =>
    intro t task task' event ht hholds ht' hp
    have hfree := free_of_gone h event ht hholds ht' hp
    exact ⟨hfree, cleared_of_free (step_guarded h event) hfree⟩
  case installed =>
    intro t task ht hp hfree more c' task' hc' ht' ha
    have hbegun := step_guarded h (.acquire t)
    have hleaving' := hc' ▸ run_leaving more hbegun (step_leaving h hleaving (.acquire t))
    rw [(givenUp_of_awaits (hc' ▸ run_guarded more hbegun) hleaving' ht' ha).quiet.installed]
    exact installed_of_awaits h ht hp hfree more hc' ht' ha
  case whole => exact ⟨hlinked.last, installed_link hlinked⟩
  case gone =>
    intro t task i k l call ht hp hmem hl hk
    have htidy := tidy_of_linked hlinked hl
    have hover := hover t task i k l call ht hp hmem hl hk
    refine ⟨hover, ?_, ?_⟩
    · intro he
      simp [(Link.pending_of_listed htidy hk he).going] at hover
    · exact Link.reused_of_key htidy (horderly l (List.mem_of_getElem? hl)) hk hover
  case late =>
    intro t task i k l call text ht hp hmem hl hk hreads hanswer
    have hover := hover t task i k l call ht hp hmem hl hk
    obtain ⟨response, hresponse⟩ := Option.ne_none_iff_exists'.mp hanswer
    by_cases hid : call.id ∈ l.table.map Prod.fst
    · exact .inl (Link.reused_of_key (tidy_of_linked hlinked hl)
        (horderly l (List.mem_of_getElem? hl)) hk hover hid)
    · exact .inr ⟨_, by simp only [step, onLink, hl],
        Link.discards_of_read hreads hresponse hid (Link.step_move l _)⟩
  case inHand =>
    intro i k l response hl hr
    exact ⟨_, by simp only [step, onLink, hl], Link.discards_of_hand hr⟩
  case returned =>
    intro t task spec o i k l ht hspec hdone hmem hl hq
    obtain ⟨o', ho', hinvocation⟩ :=
      invocation_of_done hspec (hdone ▸ h.sane.course t task ht) (hdone ▸ h.placed t task ht)
    obtain rfl := Verdict.outcome.inj ho'
    exact (hinvocation.returned hlinked hl hmem hq).decision hlinked horderly hl hq
  case returns =>
    intro t task budget i k l call n o ht hp hl hk hs hn hdecided
    have hcourse := h.sane.course t task ht
    rw [hp] at hcourse
    cases hcourse with
    | calling spec _ _ _ _ hspec =>
      exact run_takeAnswer hlinked horderly ht hspec hp hl hk hs hn hdecided

/-- The first create is given up after its line was written. Its answer comes in while the
second one waits, before that one's own. -/
def answeredTooLate : List CallerEvent :=
  [.ask (.create "room1" "pw"), .acquire 0, .advance 0, .advance 0, .abandon 0, .advance 0,
    .advance 0, .ask (.create "room2" "pw"), .acquire 1, .advance 1, .advance 1,
    .transport 0 (.arrive (Text.encode
      "\x7b\"id\":0,\"result\":false\x7d\n\x7b\"id\":1,\"result\":true\x7d\n")),
    .transport 0 .read, .transport 0 .read] ++ takeAnswer 1 0

example : ((({} : Caller).run answeredTooLate).verdict? 1).map Verdict.accepted = some true := by
  decide +kernel

end Caller

end GameRelay.Outbound
