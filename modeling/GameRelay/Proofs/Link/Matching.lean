import GameRelay.Proofs.Link.Delivery

/-!
# Responses are matched to calls

Lines that are text and shutdowns reach the table, in the order of the log. On a
link with fewer than 2^64 calls each call gets the first response to its id that
is heard while it is in the table, and no other call gets it.
-/

set_option autoImplicit false

namespace GameRelay.Outbound

open GameRelay.Frame GameRelay.Json GameRelay.Text

namespace Link

/-! ## What the table hears -/

theorem reads_unique {l : Link} {text other : String} (h : l.Reads text) (h' : l.Reads other) :
    text = other := by
  obtain ⟨-, bytes, incoming, hread, htext⟩ := h
  obtain ⟨-, bytes', incoming', hread', htext'⟩ := h'
  obtain ⟨hline, -⟩ := Prod.mk.inj (hread.symm.trans hread')
  rw [Reading.line.inj hline, htext'] at htext
  exact (Except.ok.inj htext).symm

/-- The table hears a line where the reader takes one that is text, and a shutdown
where it is shut down, and nothing else. -/
theorem heard_of_move {l l' : Link} {event : LinkEvent} (h : l.Move event l') :
    (l'.heard = l.heard ∧ l'.shutDown = l.shutDown) ∨
      (∃ text, event = .transport .read ∧ l.Reads text ∧
        l'.heard = l.heard ++ [.line text] ∧ l'.shutDown = l.shutDown) ∨
      (l'.heard = l.heard ++ [.shutDown] ∧ l'.shutDown = true) := by
  cases h with
  | overheard text incoming reports hreads => exact .inr (.inl ⟨text, rfl, hreads, rfl, rfl⟩)
  | taken text incoming response id k hreads =>
    exact .inr (.inl ⟨text, rfl, hreads, rfl, rfl⟩)
  | readEnded | writeFailed => exact .inr (.inr ⟨rfl, rfl⟩)
  | registered | left => exact .inl (by simp [enter, setStage])
  | none | started | refused | queued | notQueued | collected | disconnected | abandoned
  | arrived | finished | handed | wrote | queueClosed | discarded => exact .inl ⟨rfl, rfl⟩

/-- A line that is there to be taken is heard. -/
theorem heard_of_reads {l : Link} {text : String} (h : l.Reads text) :
    l.read.heard = l.heard ++ [.line text] := by
  obtain ⟨hidle, bytes, incoming, hread, htext⟩ := h
  simp only [read, hidle, hread, readLine, htext]
  split
  · simp only [complete]
    split
    · rfl
    · split <;> rfl
  · rfl

theorem run_shutDown (events : List LinkEvent) {l : Link}
    (h : l.shutDown = true ↔ .shutDown ∈ l.heard) :
    (l.run events).shutDown = true ↔ .shutDown ∈ (l.run events).heard := by
  induction events generalizing l with
  | nil => exact h
  | cons event rest ih =>
    apply ih
    rcases heard_of_move (step_move l event) with
      ⟨hheard, hshut⟩ | ⟨text, -, -, hheard, hshut⟩ | ⟨hheard, hshut⟩
    · rw [hheard, hshut, h]
    · simp [hheard, hshut, h]
    · simp [hheard, hshut]

/-- A line that is no response, has no id of a call or names no pending call is
heard, and that is all. -/
theorem read_of_noise {l l' : Link} (h : l.Tidy) {text : String} (hreads : l.Reads text)
    (hnoise : ∀ k c, l.calls[k]? = some c → l.Pending k c → answer? c.id text = none)
    (hmove : l.Move (.transport .read) l') :
    l'.calls = l.calls ∧ l'.table = l.table ∧ l'.shutDown = l.shutDown := by
  cases hmove with
  | none | overheard => exact ⟨rfl, rfl, rfl⟩
  | readEnded incoming reports hidle hno => exact absurd hreads (hno text)
  | taken other incoming response id k hreads' hanswer hl =>
    obtain ⟨c, hk, rfl, -⟩ := h.coherent.entries _ (mem_of_lookup hl)
    have hnone := hnoise k c hk (pending_of_listed h hk (mem_of_lookup hl))
    rw [reads_unique hreads' hreads, hnone] at hanswer
    simp at hanswer

end Link

/-! ## One line, one call -/

theorem Mailbox.cutOff_eq_answered {m : Mailbox} {response : Response}
    (h : m.cutOff = .answered response) : m = .answered response := by
  cases m with
  | empty => simp [cutOff] at h
  | answered r => exact h
  | cut => simp [cutOff] at h

/-- Only a line that answers the id of a call in the table gives it a response. -/
theorem Slot.answered_of_change {l l' : Link} {s s' : Slot} {response : Response}
    (hchange : Change l l' s s') (hno : ∀ r, s.letter ≠ .answered r)
    (h : s'.letter = .answered response) :
    s.listed = true ∧
      ∃ text, l'.heard = l.heard ++ [.line text] ∧ answer? s.call.id text = some response := by
  have hhand : s.inHand = none := by
    by_contra hhand
    obtain ⟨r, hr⟩ := Option.ne_none_iff_exists'.mp hhand
    exact hno r (by simp [letter, hr, Mailbox.receive])
  have hmail : ∀ r, s.call.mailbox ≠ .answered r := by
    simpa [letter, hhand, Mailbox.receive] using hno
  cases hchange with
  | same | overheard | passedBy => exact absurd h (hno response)
  | refused | registered | queued | notQueued | collected | disconnected | abandoned =>
    exact absurd h (hno response)
  | answered text r hheard _ hanswer hl =>
    have : r = response := by simpa [letter, Mailbox.receive] using h
    exact ⟨hl, text, hheard, this ▸ hanswer⟩
  | cutOff | pushedOut =>
    simp only [letter, hhand, Mailbox.receive] at h
    exact absurd (Mailbox.cutOff_eq_answered h) (hmail response)
  | handed r _ _ hr => simp [hhand] at hr
  | left outcome _ _ _ mailbox hmailbox =>
    simp only [letter, hhand, Mailbox.receive] at h
    rcases hmailbox with rfl | rfl
    · exact absurd h (hmail response)
    · exact absurd (Mailbox.cutOff_eq_answered h) (hmail response)
  | dropped => exact absurd h (hmail response)

namespace Link

def Receives (l : Link) (event : LinkEvent) (k : Nat) : Prop :=
  ∃ c c' response, l.calls[k]? = some c ∧ (l.step event).calls[k]? = some c' ∧
    (∀ r, (l.slot k c).letter ≠ .answered r) ∧
    ((l.step event).slot k c').letter = .answered response

theorem listed_of_receives {l : Link} (h : l.Coherent) {event : LinkEvent} {k : Nat}
    (hk : l.Receives event k) : ∃ c text response, l.calls[k]? = some c ∧ (c.id, k) ∈ l.table ∧
      (l.step event).heard = l.heard ++ [.line text] ∧ answer? c.id text = some response := by
  obtain ⟨c, c', response, hc, hc', hno, hletter⟩ := hk
  obtain ⟨c'', hc'', hchange⟩ := step_changes h event k c hc
  obtain rfl : c'' = c' := Option.some.inj (hc''.symm.trans hc')
  obtain ⟨hl, text, hheard, hanswer⟩ := Slot.answered_of_change hchange hno hletter
  exact ⟨c, text, response, hc, by simpa [slot] using hl, hheard, hanswer⟩

theorem answer?_id {i j : UInt64} {text : String} {r r' : Response}
    (hi : answer? i text = some r) (hj : answer? j text = some r') : i = j := by
  obtain ⟨hp, hid⟩ := answer?_eq_some_iff.mp hi
  obtain ⟨hp', hid'⟩ := answer?_eq_some_iff.mp hj
  obtain rfl : r = r' := Except.ok.inj (hp.symm.trans hp')
  exact Option.some.inj (hid.symm.trans hid')

theorem receives_unique {l : Link} (h : l.Coherent) {event : LinkEvent} {j k : Nat}
    (hj : l.Receives event j) (hk : l.Receives event k) : j = k := by
  obtain ⟨cj, text, r, -, hlj, hheardj, hanswerj⟩ := listed_of_receives h hj
  obtain ⟨ck, text', r', -, hlk, hheardk, hanswerk⟩ := listed_of_receives h hk
  have htext : text = text' := by
    simpa using hheardj.symm.trans hheardk
  have hid : cj.id = ck.id := answer?_id hanswerj (htext ▸ hanswerk)
  exact h.entry_unique hlj (hid ▸ hlk)

/-! ## A decided call returns -/

theorem hand_mailbox {l : Link} {k : Nat} {c : Call} (hk : l.calls[k]? = some c) :
    l.hand.calls[k]? = some { c with mailbox := (l.slot k c).letter } := by
  rcases letter_cases l k c with ⟨response, hr, hletter⟩ | ⟨hr, hletter⟩
  · simp [hand, hr, hk, hletter]
  · unfold hand
    split
    · rename_i j response hj
      have hjk : j ≠ k := fun hjk => hr response (hjk ▸ hj)
      simp [hk, hjk, hletter]
    · simp [hk, hletter]

theorem collect_stage {l : Link} {k : Nat} {c : Call} {o : Outcome}
    (hk : l.calls[k]? = some c) (hs : c.stage = .waiting)
    (ho : c.mailbox.outcome? c.want = some o) :
    (l.callStep k .collect).calls[k]? = some { c with stage := .leaving (some o) } := by
  have hstep : l.callStep k .collect = l.collect k c := by simp [callStep, hk, hs]
  rw [hstep]
  unfold collect
  split
  · rename_i hm
    simp [hm, Mailbox.outcome?] at ho
  · rename_i response hm
    obtain rfl : response.outcome c.want = o := by simpa [hm, Mailbox.outcome?] using ho
    exact setStage_call l _ hk
  · rename_i hm
    obtain rfl : Except.error RelayError.disconnected = o := by
      simpa [hm, Mailbox.outcome?] using ho
    exact setStage_call l _ hk

theorem leave_stage {l : Link} (h : l.Coherent) {k : Nat} {c : Call} {o : Option Outcome}
    (hk : l.calls[k]? = some c) (hs : c.stage = .leaving o) :
    ∃ c', (l.callStep k .leave).calls[k]? = some c' ∧ c'.stage = .ended o := by
  have hstep : l.callStep k .leave = (l.cancel c.id).setStage k (.ended o) := by
    simp [callStep, hk, hs]
  rw [hstep]
  exact ⟨_, setStage_call _ _ (cancel_call h c.id hk), rfl⟩

def returning (k : Nat) : List LinkEvent :=
  [.transport .hand, .call k .collect, .call k .leave]

theorem run_returning {l : Link} (h : l.Coherent) {k : Nat} {c : Call} {o : Outcome}
    (hk : l.calls[k]? = some c) (hs : c.stage = .waiting)
    (ho : (l.slot k c).letter.outcome? c.want = some o) :
    ∃ c', (l.run (returning k)).calls[k]? = some c' ∧ c'.stage = .ended (some o) := by
  have hhanded := hand_mailbox hk
  have hcollected := collect_stage hhanded hs ho
  have hcoherent := run_coherent h [.transport .hand, .call k .collect]
  exact leave_stage hcoherent hcollected rfl

/-! ## Matching -/

structure AnswersMatched (l : Link) : Prop where
  /-- A call registers before its line is queued. -/
  registered : ∀ k c, l.calls[k]? = some c → k ∈ l.queued →
    ∃ n, c.since = some n ∧ n ≤ l.heard.length
  /-- A call that goes on has been handed what decides it, if anything does. -/
  receives : ∀ k c n, l.calls[k]? = some c → c.since = some n → c.isOver = false →
    (l.slot k c).letter = firstAnswer c.id (l.heard.drop n)
  /-- A call that queued its line and was not given up returns what that makes. -/
  returns : ∀ k c n o, l.calls[k]? = some c → k ∈ l.queued → c.since = some n →
    c.stage = .ended (some o) →
    (firstAnswer c.id (l.heard.drop n)).outcome? c.want = some o
  /-- It returns that it was disconnected where the shutdown came first, and only there. -/
  disconnected : ∀ k c n o, l.calls[k]? = some c → k ∈ l.queued → c.since = some n →
    c.stage = .ended (some o) →
    (o = .error .disconnected ↔ firstAnswer c.id (l.heard.drop n) = .cut)
  /-- A decided call that waits can return, whatever has happened to the link since. -/
  finishes : ∀ k c n o, l.calls[k]? = some c → c.since = some n → c.stage = .waiting →
    (firstAnswer c.id (l.heard.drop n)).outcome? c.want = some o →
    ∃ c', (l.run (returning k)).calls[k]? = some c' ∧ c'.stage = .ended (some o)
  /-- What the reader takes is heard, and besides only shutdowns are. -/
  hears : ∀ text, l.Reads text →
    (l.step (.transport .read)).heard = l.heard ++ [.line text]
  hearsOnly : ∀ event, (l.step event).heard = l.heard ∨
    (∃ text, event = .transport .read ∧ l.Reads text ∧
      (l.step event).heard = l.heard ++ [.line text]) ∨
    ((l.step event).heard = l.heard ++ [.shutDown] ∧ (l.step event).shutDown = true)
  shut : l.shutDown = true ↔ .shutDown ∈ l.heard
  /-- A step gives a response to one call at most. -/
  once : ∀ event j k, l.Receives event j → l.Receives event k → j = k
  /-- A line that is no response, has no id of a call or names no pending call changes
  no call and not the table. -/
  ignores : ∀ text, l.Reads text →
    (∀ k c, l.calls[k]? = some c → l.Pending k c → answer? c.id text = none) →
    (l.step (.transport .read)).calls = l.calls ∧
      (l.step (.transport .read)).table = l.table ∧
      (l.step (.transport .read)).shutDown = l.shutDown

/-- At any moment of a link with fewer than 2^64 calls, responses are matched to calls. -/
theorem run_answersMatched (events : List LinkEvent)
    (hlen : (({} : Link).run events).calls.length < UInt64.size) :
    (({} : Link).run events).AnswersMatched := by
  have h := run_tidy fresh_tidy events
  have hcounted := run_counted events
  have hdelivered := fun k c => run_delivered events k c hlen
  have hshut := run_shutDown events (l := {}) (by simp)
  generalize ({} : Link).run events = l at h hcounted hdelivered hshut
  have hreturns : ∀ k c n o, l.calls[k]? = some c → k ∈ l.queued → c.since = some n →
      c.stage = .ended (some o) →
      (firstAnswer c.id (l.heard.drop n)).outcome? c.want = some o := by
    intro k c n o hk hq hn hs
    have hlines : (l.slot k c).lines ≠ 0 := fun hzero => List.count_eq_zero.mp hzero hq
    exact (hdelivered k c hk).outcome n o hn (congrArg Stage.outcome? hs) hlines
  constructor
  case registered =>
    intro k c hk hq
    have hlines : (l.slot k c).lines ≠ 0 := fun hzero => List.count_eq_zero.mp hzero hq
    obtain ⟨n, hn⟩ := Option.isSome_iff_exists.mp ((hcounted k c hk).registered hlines)
    exact ⟨n, hn, (hcounted k c hk).since_le n hn⟩
  case receives =>
    intro k c n hk hn hgoing
    have hent := entered_of_since h hk (by simp [hn]) hgoing
    exact (hdelivered k c hk).letter n hn hent
  case returns => exact hreturns
  case disconnected =>
    intro k c n o hk hq hn hs
    rw [← outcome?_eq_disconnected_iff c.want, hreturns k c n o hk hq hn hs, Option.some.injEq]
  case finishes =>
    intro k c n o hk hn hs ho
    have hent : c.stage.isEntered = true := by simp [hs, Stage.isEntered]
    apply run_returning h.coherent hk hs
    rw [(hdelivered k c hk).letter n hn hent]
    exact ho
  case hears =>
    intro text
    exact heard_of_reads
  case hearsOnly =>
    intro event
    rcases heard_of_move (step_move l event) with
      ⟨hheard, -⟩ | ⟨text, hevent, hreads, hheard, -⟩ | hheard
    · exact .inl hheard
    · exact .inr (.inl ⟨text, hevent, hreads, hheard⟩)
    · exact .inr (.inr hheard)
  case shut => exact hshut
  case once =>
    intro event j k hj hk
    exact receives_unique h.coherent hj hk
  case ignores =>
    intro text hreads hnoise
    exact read_of_noise h hreads hnoise (step_move l (.transport .read))

def answeredInReverse : List LinkEvent :=
  [.start "new_game" (.value .null) .boolean, .start "new_game" (.value .null) .boolean,
    .call 0 .register, .call 1 .register, .call 0 .queue, .call 1 .queue,
    .transport (.arrive (encode "\x7b\"id\":1,\"result\":false\x7d\n\x7b\"id\":0,\"result\":true\x7d\n")),
    .transport .read, .transport .hand, .transport .read, .transport .hand,
    .call 0 .collect, .call 1 .collect, .call 1 .leave, .call 0 .leave]

theorem answersMatched_in_reverse :
    (({} : Link).run answeredInReverse).calls.map
        (fun c => c.stage.outcome?.map fun o => o matches .ok (.bool true)) =
      [some true, some false] ∧
    (({} : Link).run answeredInReverse).AnswersMatched :=
  ⟨by decide +kernel, run_answersMatched answeredInReverse (by decide +kernel)⟩

end Link

end GameRelay.Outbound
