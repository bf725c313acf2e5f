import GameRelay.Proofs.Caller.Sending

/-!
# No game is created or removed in name only

A request for a game is accepted only where the link that its one line was
queued to heard the answer: the first response to the id of that attempt since
the attempt registered, without an error and with `true` for its result.
-/

set_option autoImplicit false

namespace GameRelay.Outbound

open GameRelay.Frame GameRelay.Json

def Ask.isGame : Ask → Bool
  | .create .. | .remove .. => true
  | .call _ | .reconnect => false

theorem want_of_isGame {ask : Ask} {spec : CallSpec} (h : ask.isGame = true)
    (hspec : ask.call? = some spec) : spec.want = .boolean := by
  cases ask with
  | create name password => exact (congrArg CallSpec.want (Option.some.inj hspec)).symm
  | remove name => exact (congrArg CallSpec.want (Option.some.inj hspec)).symm
  | call | reconnect => simp [Ask.isGame] at h

theorem accepted_outcome {o : Outcome} (h : (Verdict.outcome o).accepted = true) :
    o = .ok (.bool true) := by
  cases o with
  | error error => simp [Verdict.accepted] at h
  | ok v => cases v <;> simp_all [Verdict.accepted]

def Link.SaysYes (l : Link) (call : Call) : Prop :=
  ∃ n before text after response, call.since = some n ∧
    l.heard.drop n = before ++ .line text :: after ∧
    (∀ what ∈ before, ∃ other, what = .line other ∧ answer? call.id other = none) ∧
    Response.parse text = .ok response ∧ response.callId? = some call.id ∧
    response.error = none ∧ response.result = .bool true

theorem Link.saysYes_of_firstAnswer {l : Link} {call : Call} {n : Nat}
    (hn : call.since = some n)
    (h : (firstAnswer call.id (l.heard.drop n)).outcome? .boolean = some (.ok (.bool true))) :
    l.SaysYes call := by
  cases hfirst : firstAnswer call.id (l.heard.drop n) with
  | empty => simp [hfirst, Mailbox.outcome?] at h
  | cut => simp [hfirst, Mailbox.outcome?] at h
  | answered response =>
    have hyes : response.outcome .boolean = .ok (.bool true) := by
      simpa [hfirst, Mailbox.outcome?] using h
    obtain ⟨herror, hresult⟩ := (Response.outcome_boolean_true_iff response).mp hyes
    obtain ⟨before, text, after, hlog, hanswer, hbefore⟩ := firstAnswer_eq_answered_iff.mp hfirst
    obtain ⟨hparse, hid⟩ := answer?_eq_some_iff.mp hanswer
    exact ⟨n, before, text, after, response, hn, hlog, hbefore, hparse, hid, herror, hresult⟩

namespace Caller

structure Granted (c : Caller) (task : Task) (i k : Nat) (l : Link) (call : Call) : Prop where
  line : c.linesOf task = [(i, k)]
  link : c.links[i]? = some l
  made : l.calls[k]? = some call
  asked : task.ask.call? = some call.spec
  /-- What was queued is the request with the id of the call. -/
  request : call.argument.callLine? call.method call.id = some call.line
  yes : l.SaysYes call

theorem granted_of_returned {c : Caller} (h : c.Linked) (hfew : ∀ l ∈ c.links,
    l.calls.length < UInt64.size) {task : Task} {spec : CallSpec} {budget : Budget} {i k : Nat}
    (hspec : task.ask.call? = some spec) (hwant : spec.want = .boolean)
    (htried : c.Tried spec budget i k task.history)
    (hreturned : c.Returned spec i k (.ok (.bool true))) :
    ∃ l call, c.Granted task i k l call := by
  have hcount : c.lines.count (i, k) = 1 :=
    (Option.some.inj (lines_of_returned h hreturned)).symm
  obtain ⟨call, hcall, rfl, hs⟩ := hreturned
  obtain ⟨l, hl, hk⟩ := call?_eq_some_iff.mp hcall
  have hcounted := counted_of_call h hl hk
  have hlines : (l.slot k call).lines ≠ 0 := by
    have hqueued : (l.slot k call).lines = 1 := (count_lines hl k).symm.trans hcount
    omega
  have hsince := hcounted.registered hlines
  obtain ⟨n, hn⟩ := Option.isSome_iff_exists.mp hsince
  refine ⟨l, call, ?_⟩
  constructor
  case line =>
    have hlength := (lines_of_tried h htried).trans hcount
    obtain ⟨line, hline⟩ := List.length_eq_one_iff.mp hlength
    have hmem : (i, k) ∈ c.linesOf task :=
      mem_linesOf.mpr ⟨List.count_pos_iff.mp (by omega), htried.mem⟩
    rw [hline] at hmem
    rw [hline, List.mem_singleton.mp hmem]
  case link => exact hl
  case made => exact hk
  case asked => exact hspec
  case request => exact hcounted.line (.inr hsince)
  case yes =>
    have hbound := hfew l (List.mem_of_getElem? hl)
    obtain ⟨events, rfl⟩ := h.reached l (List.mem_of_getElem? hl)
    have houtcome := (Link.run_delivered events k call hbound hk).outcome n _ hn
      (congrArg Stage.outcome? hs) hlines
    exact Link.saysYes_of_firstAnswer hn (hwant ▸ houtcome)

/-- A task about a game that is done and accepted was granted by the relay. -/
theorem run_granted (events : List CallerEvent)
    (hfew : ∀ l ∈ (({} : Caller).run events).links, l.calls.length < UInt64.size) (task : Task)
    (htask : task ∈ (({} : Caller).run events).tasks) (hgame : task.ask.isGame = true)
    (verdict : Verdict) (hdone : task.progress = .done verdict)
    (haccepted : verdict.accepted = true) :
    ∃ i k l call, (({} : Caller).run events).Granted task i k l call := by
  have h := run_sane fresh_sane events
  generalize ({} : Caller).run events = c at h hfew htask
  obtain ⟨t, ht⟩ := List.mem_iff_getElem?.mp htask
  have hcourse := h.course t task ht
  obtain ⟨ask, progress, history⟩ := task
  obtain rfl : progress = .done verdict := hdone
  cases hcourse with
  | lost => simp [Verdict.accepted] at haccepted
  | replaced succeeded hspec => cases ask <;> simp_all [Ask.isGame, Ask.call?]
  | returned spec budget i k _ o hspec htried hreturned =>
    obtain rfl := accepted_outcome haccepted
    exact ⟨i, k, granted_of_returned h.linked hfew hspec (want_of_isGame hgame hspec) htried
      hreturned⟩

theorem progress_of_verdict {c : Caller} {t : Nat} {task : Task} {verdict : Verdict}
    (ht : c.tasks[t]? = some task) (h : c.verdict? t = some verdict) :
    task.progress = .done verdict := by
  unfold verdict? at h
  rw [ht] at h
  cases hp : task.progress <;> simp_all

/-- The first link is lost before the task begins, the second one hears the answer. -/
def createdAfterReconnect : List CallerEvent :=
  [.ask (.create "room1" "secret"), .transport 0 (.finish .closed), .transport 0 .read,
    .acquire 0, .advance 0, .advance 0, .dialed 0 (.ok ()), .advance 0, .advance 0,
    .transport 1 (.arrive (Text.encode "\x7b\"id\":0,\"result\":true\x7d\n")),
    .transport 1 .read, .transport 1 .hand, .advance 0, .advance 0, .advance 0]

theorem granted_after_reconnect :
    ((({} : Caller).run createdAfterReconnect).verdict? 0).map Verdict.accepted = some true ∧
      ∃ task i k l call, (({} : Caller).run createdAfterReconnect).tasks[0]? = some task ∧
        (({} : Caller).run createdAfterReconnect).Granted task i k l call := by
  have hdone : ((({} : Caller).run createdAfterReconnect).verdict? 0).map Verdict.accepted =
      some true := by decide +kernel
  have hasked : ((({} : Caller).run createdAfterReconnect).tasks[0]?).map
      (fun task => task.ask.isGame) = some true := by decide +kernel
  obtain ⟨verdict, hverdict, haccepted⟩ := Option.map_eq_some_iff.mp hdone
  obtain ⟨task, ht, hgame⟩ := Option.map_eq_some_iff.mp hasked
  obtain ⟨i, k, l, call, hgranted⟩ := run_granted createdAfterReconnect (by decide +kernel) task
    (List.mem_of_getElem? ht) hgame verdict (progress_of_verdict ht hverdict) haccepted
  exact ⟨hdone, task, i, k, l, call, ht, hgranted⟩

end Caller

end GameRelay.Outbound
