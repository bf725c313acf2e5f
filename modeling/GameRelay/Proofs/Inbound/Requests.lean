import GameRelay.Proofs.Inbound.Taking

/-!
# When a request is taken, handled and answered

A connection takes one request at a time: it writes the reply to the last one before
it reads on. So the replies that were written belong to the first requests that were
taken, and the handler of each request that is called ran between the moments at
which the request was read and its reply was written.
-/

set_option autoImplicit false

namespace GameRelay.Inbound

open GameRelay.Frame

namespace Listener

variable {σ : Type}

section
variable {consumer : Consumer σ} {l : Listener σ} {c : Nat} {s : Serving}

theorem requestsOn_append (consumer : Consumer σ) (c : Nat) (l : Listener σ)
    (events more : List ListenerEvent) :
    l.requestsOn consumer c (events ++ more) =
      l.requestsOn consumer c events ++
        (l.run consumer events).requestsOn consumer c more := by
  induction events generalizing l with
  | nil => rfl
  | cons event rest ih => simp [requestsOn, run, ih]

inductive Account : List Request → List Notice → Phase → List Response → Prop where
  | reading (taken : List Request) (written : List Response) : taken.length = written.length →
      Account taken (taken.filterMap noticeOf?) .reading written
  | calling (taken : List Request) (r : Request) (call : Call) (written : List Response) :
      taken.length = written.length → Call.ofRequest r = .ok call →
      Account (taken ++ [r]) (taken.filterMap noticeOf?) (.calling r call) written
  | replying (taken : List Request) (r : Request) (response : Response) (written : List Response) :
      taken.length = written.length →
      Account (taken ++ [r]) ((taken ++ [r]).filterMap noticeOf?) (.replying response) written
  /-- A reply may have been lost. -/
  | ended (taken : List Request) (written : List Response) : written.length ≤ taken.length →
      Account taken (taken.filterMap noticeOf?) .ended written

theorem Account.turn {requests taken : List Request} {heard more : List Notice} {phase : Phase}
    {written : List Response} {event : ListenerEvent} (h : Account requests heard s.phase s.written)
    (hturn : Turn consumer l c s event taken more phase written) :
    Account (requests ++ taken) (heard ++ more) phase written := by
  obtain ⟨stream, now, replies⟩ := s
  cases hturn with
  | still => simpa using h
  | took r call hp _ hcall =>
    obtain rfl : now = .reading := hp
    cases h with
    | reading _ _ hlength => simpa using Account.calling requests r call replies hlength hcall
  | refused r why hp _ hcall =>
    obtain rfl : now = .reading := hp
    have hnone : noticeOf? r = none := by simp [noticeOf?, hcall, Except.toOption]
    cases h with
    | reading _ _ hlength =>
      simpa [hnone] using Account.replying requests r (.failed r.id why.message) replies hlength
  | handled r call hp =>
    obtain rfl : now = .calling r call := hp
    cases h with
    | calling taken _ _ _ hlength hcall =>
      have hsome : noticeOf? r = some call.notice := by simp [noticeOf?, hcall, Except.toOption]
      simpa [hsome] using Account.replying taken r _ replies hlength
  | wrote response hp =>
    obtain rfl : now = .replying response := hp
    cases h with
    | replying taken r _ _ hlength =>
      simpa using Account.reading (taken ++ [r]) (replies ++ [response]) (by simp [hlength])
  | closed hp =>
    obtain rfl : now = .reading := hp
    cases h with
    | reading _ _ hlength =>
      simpa using Account.ended requests replies (Nat.le_of_eq hlength.symm)
  | lost response _ hp =>
    obtain rfl : now = .replying response := hp
    cases h with
    | replying taken r _ _ hlength =>
      have hle : replies.length ≤ (taken ++ [r]).length := by
        rw [List.length_append, hlength]
        exact Nat.le_add_right _ _
      simpa using Account.ended (taken ++ [r]) replies hle

theorem Account.replied_le {requests : List Request} {heard : List Notice} {phase : Phase}
    {written : List Response} (h : Account requests heard phase written) :
    (written ++ phase.reply?.toList).length ≤ requests.length := by
  cases h <;> simp [Phase.reply?] <;> omega

theorem Account.length_of_reading {requests : List Request} {heard : List Notice}
    {written : List Response} (h : Account requests heard .reading written) :
    requests.length = written.length := by
  cases h
  assumption

/-- The notices of the requests that were answered were heard first, in this order. -/
theorem Account.acknowledged {requests : List Request} {heard : List Notice} {phase : Phase}
    {written : List Response} (h : Account requests heard phase written) :
    written.length ≤ requests.length ∧
      (requests.take written.length).filterMap noticeOf? <+: heard := by
  have hprefix := fun taken : List Request => (List.take_prefix written.length taken).filterMap
    noticeOf?
  cases h with
  | reading taken _ hlength => exact ⟨Nat.le_of_eq hlength.symm, hprefix requests⟩
  | calling taken r call _ hlength _ =>
    refine ⟨by simp; omega, ?_⟩
    rw [List.take_append_of_le_length (Nat.le_of_eq hlength.symm)]
    exact hprefix taken
  | replying taken r response _ hlength => exact ⟨by simp; omega, hprefix _⟩
  | ended taken _ hlength => exact ⟨hlength, hprefix requests⟩

/-- The `j`-th request of a connection, taken right after `before`, whose handler runs right
after `between`. -/
structure Handled (consumer : Consumer σ) (l : Listener σ) (c j : Nat) (r : Request) (call : Call)
    (before between : List ListenerEvent) : Prop where
  index : (l.requestsOn consumer c before).length = j
  taken : (l.run consumer before).requestOn? c (.read c) = some r
  due : ∃ s, (l.run consumer (before ++ .read c :: between)).connections[c]? = some s ∧
    s.phase = .calling r call ∧ s.written.length = j

def Came (consumer : Consumer σ) (l : Listener σ) (c j : Nat) (r : Request) (call : Call)
    (events : List ListenerEvent) (response : Response) : Prop :=
  ∃ before between after, events = before ++ .read c :: (between ++ .handle c :: after) ∧
    Handled consumer l c j r call before between ∧
    response = call.respond r (consumer.handle
      (l.run consumer (before ++ .read c :: between)).state call.notice).2

structure Told (consumer : Consumer σ) (l : Listener σ) (c : Nat) (events : List ListenerEvent)
    (s : Serving) : Prop where
  account : Account (l.requestsOn consumer c events)
    ((l.run consumer events).heardOn c) s.phase s.written
  asked : ∀ r call, s.phase = .calling r call → ∃ before between,
    events = before ++ .read c :: between ∧
    (l.requestsOn consumer c before).length = s.written.length ∧
    (l.run consumer before).requestOn? c (.read c) = some r
  answered : ∀ (j : Nat) (r : Request) (call : Call) (response : Response),
    (l.requestsOn consumer c events)[j]? = some r → Call.ofRequest r = .ok call →
    (s.written ++ s.phase.reply?.toList)[j]? = some response →
    Came consumer l c j r call events response

/-- A connection that was just accepted. -/
theorem told_of_fresh {events : List ListenerEvent}
    (hrequests : l.requestsOn consumer c events = [])
    (hheard : (l.run consumer events).heardOn c = []) :
    Told consumer l c events {} where
  account := by
    rw [hrequests, hheard]
    exact .reading [] [] rfl
  asked r call hp := by cases hp
  answered j r call response hr := by simp [hrequests] at hr

section
variable {events : List ListenerEvent} {event : ListenerEvent} {s' : Serving}

theorem requestsOn_concat (consumer : Consumer σ) (c : Nat) (l : Listener σ)
    (events : List ListenerEvent) (event : ListenerEvent) :
    l.requestsOn consumer c (events ++ [event]) =
      l.requestsOn consumer c events ++
        ((l.run consumer events).requestOn? c event).toList := by
  simp [requestsOn_append, requestsOn]

theorem Told.asked_step (h : Told consumer l c events s)
    (hs : (l.run consumer events).connections[c]? = some s) {taken : List Request}
    {heard : List Notice}
    (hturn : Turn consumer (l.run consumer events) c s event taken heard s'.phase
      s'.written) (r : Request) (call : Call) (hp : s'.phase = .calling r call) :
    ∃ before between, events ++ [event] = before ++ .read c :: between ∧
      (l.requestsOn consumer c before).length = s'.written.length ∧
      (l.run consumer before).requestOn? c (.read c) = some r := by
  have haccount := h.account
  obtain ⟨stream', phase', written'⟩ := s'
  obtain rfl : phase' = .calling r call := hp
  generalize hphase : Phase.calling r call = phase at hturn
  cases hturn with
  | still =>
    obtain ⟨before, between, hevents, hcount, hrequest⟩ := h.asked r call hphase.symm
    exact ⟨before, between ++ [event], by simp [hevents], hcount, hrequest⟩
  | took r' call' hreading hrequest hcall =>
    cases hphase
    refine ⟨events, [], rfl, ?_, ?_⟩
    · exact (hreading ▸ haccount).length_of_reading
    · simpa [requestOn?, hs] using hrequest
  | refused | handled | wrote | closed | lost => cases hphase

/-- What was answered before was answered in the same way. -/
theorem Told.earlier (h : Told consumer l c events s) {j : Nat} {r : Request} {call : Call}
    {response : Response} {more : List Request}
    (hr : (l.requestsOn consumer c events ++ more)[j]? = some r)
    (hcall : Call.ofRequest r = .ok call)
    (hresponse : (s.written ++ s.phase.reply?.toList)[j]? = some response) (event : ListenerEvent) :
    Came consumer l c j r call (events ++ [event]) response := by
  have hlt := (List.getElem?_eq_some_iff.mp hresponse).1
  have hle := h.account.replied_le
  rw [List.getElem?_append_left (by omega)] at hr
  obtain ⟨before, between, after, hevents, hhandled, heq⟩ := h.answered j r call response hr hcall
    hresponse
  exact ⟨before, between, after ++ [event], by simp [hevents], hhandled, heq⟩

/-- The handler of the request that was taken last. -/
theorem Told.handled (h : Told consumer l c events s)
    (hs : (l.run consumer events).connections[c]? = some s) {r : Request} {call : Call}
    (hp : s.phase = .calling r call) :
    (l.requestsOn consumer c events)[s.written.length]? = some r ∧
      Call.ofRequest r = .ok call ∧ ∃ before between, events = before ++ .read c :: between ∧
      Handled consumer l c s.written.length r call before between := by
  obtain ⟨before, between, hevents, hcount, hrequest⟩ := h.asked r call hp
  have haccount := h.account
  rw [hp] at haccount
  generalize l.requestsOn consumer c events = requests at haccount
  generalize (l.run consumer events).heardOn c = heard at haccount
  generalize hwritten : s.written = written at haccount hcount
  cases haccount with
  | calling taken _ _ _ hlength hcall =>
    refine ⟨by rw [← hlength]; simp, hcall, before, between, hevents, hcount, hrequest, ?_⟩
    exact ⟨s, hevents ▸ hs, hp, congrArg List.length hwritten⟩

theorem Told.answered_step (h : Told consumer l c events s)
    (hs : (l.run consumer events).connections[c]? = some s) {taken : List Request}
    {heard : List Notice}
    (hturn : Turn consumer (l.run consumer events) c s event taken heard s'.phase
      s'.written) (j : Nat) (r : Request) (call : Call) (response : Response)
    (hr : (l.requestsOn consumer c events ++ taken)[j]? = some r)
    (hcall : Call.ofRequest r = .ok call)
    (hresponse : (s'.written ++ s'.phase.reply?.toList)[j]? = some response) :
    Came consumer l c j r call (events ++ [event]) response := by
  have hold : (s.written ++ s.phase.reply?.toList)[j]? = some response →
      Came consumer l c j r call (events ++ [event]) response :=
    fun hbefore => h.earlier hr hcall hbefore event
  -- A reply that is not the last one was there before.
  have hwritten : s.written[j]? = some response →
      (s.written ++ s.phase.reply?.toList)[j]? = some response := by
    intro hj
    rw [List.getElem?_append_left (List.getElem?_eq_some_iff.mp hj).1, hj]
  generalize s'.phase = phase at hturn hresponse
  generalize s'.written = written at hturn hresponse
  cases hturn with
  | still => exact hold hresponse
  | took | closed | lost =>
    exact hold (hwritten (by simpa [Phase.reply?] using hresponse))
  | wrote last hp =>
    exact hold (by simpa [Phase.reply?, hp] using hresponse)
  | refused r' why hreading _ herror =>
    rw [Phase.reply?, Option.toList_some, List.getElem?_append] at hresponse
    split at hresponse
    · exact hold (hwritten hresponse)
    · -- The last request was turned down.
      have hlength := (hreading ▸ h.account).length_of_reading
      have hj : j = s.written.length := by
        have hlt := (List.getElem?_eq_some_iff.mp hr).1
        simp at hlt
        omega
      obtain rfl : r' = r := by simpa [hj, ← hlength] using hr
      simp [hcall] at herror
  | handled r' call' hp =>
    rw [Phase.reply?, Option.toList_some, List.getElem?_append] at hresponse
    split at hresponse
    · exact hold (hwritten hresponse)
    · obtain ⟨hlast, hcall', before, between, hevents, hhandled⟩ := h.handled hs hp
      rw [List.getElem?_singleton] at hresponse
      split at hresponse
      · have hj : j = s.written.length := by omega
        subst hj
        rw [List.append_nil] at hr
        obtain rfl := Option.some.inj (hlast.symm.trans hr)
        obtain rfl := Except.ok.inj (hcall'.symm.trans hcall)
        refine ⟨before, between, [], by simp [hevents], hhandled, ?_⟩
        rw [← hevents]
        exact (Option.some.inj hresponse).symm
      · simp at hresponse

theorem Told.step (h : Told consumer l c events s)
    (hs : (l.run consumer events).connections[c]? = some s) (event : ListenerEvent) :
    ∃ s', (l.run consumer (events ++ [event])).connections[c]? = some s' ∧
      Told consumer l c (events ++ [event]) s' := by
  obtain ⟨s', heard, hs', hheard, hturn⟩ := step_turn consumer hs event
  refine ⟨s', by rw [run_append]; exact hs', ?_, h.asked_step hs hturn, ?_⟩
  · rw [requestsOn_concat, run_append]
    exact hheard ▸ h.account.turn hturn
  · intro j r call response hr
    rw [requestsOn_concat] at hr
    exact h.answered_step hs hturn j r call response hr

theorem Told.run (h : Told consumer l c events s)
    (hs : (l.run consumer events).connections[c]? = some s) (more : List ListenerEvent) :
    ∃ s', (l.run consumer (events ++ more)).connections[c]? = some s' ∧
      Told consumer l c (events ++ more) s' := by
  induction more generalizing events s with
  | nil => exact ⟨s, by rwa [List.append_nil], by rwa [List.append_nil]⟩
  | cons event rest ih =>
    obtain ⟨s', hs', h'⟩ := h.step hs event
    obtain ⟨last, hlast, htold⟩ := ih h' hs'
    rw [List.append_assoc] at hlast htold
    exact ⟨last, hlast, htold⟩

end

theorem accept_heard (consumer : Consumer σ) (l : Listener σ) :
    (l.step consumer .accept).heard = l.heard := by
  simp only [step]
  split <;> rfl

/-- A connection that was not there is as it is when it was just accepted. -/
theorem step_new (consumer : Consumer σ) (hnone : l.connections[c]? = none)
    (event : ListenerEvent) :
    (l.step consumer event).connections[c]? = none ∨
      event = .accept ∧ (l.step consumer event).connections[c]? = some {} := by
  have hlength : (l.step consumer event).connections.length = _ := step_length l event
  rw [List.getElem?_eq_none_iff] at hnone ⊢
  by_cases haccept : event = .accept ∧ l.door.accepts = true
  · obtain ⟨rfl, hdoor⟩ := haccept
    by_cases hc : c = l.connections.length
    · subst hc
      exact .inr ⟨rfl, by simp [step, hdoor]⟩
    · rw [if_pos ⟨rfl, hdoor⟩] at hlength
      exact .inl (by omega)
  · rw [if_neg haccept] at hlength
    exact .inl (by omega)

/-- Every connection of a listener, at every moment. -/
theorem run_told (consumer : Consumer σ) (start : σ) (events : List ListenerEvent)
    (hs : ((opened start).run consumer events).connections[c]? = some s) :
    Told consumer (opened start) c events s := by
  have hlater : ∀ more before : List ListenerEvent,
      ((opened start).run consumer before).connections[c]? = none →
      (opened start).requestsOn consumer c before = [] →
      ((opened start).run consumer (before ++ more)).connections[c]? = some s →
      Told consumer (opened start) c (before ++ more) s := by
    intro more
    induction more with
    | nil =>
      intro before hnone _ hs
      rw [List.append_nil, hnone] at hs
      cases hs
    | cons event rest ih =>
      intro before hnone hrequests hs
      have hconcat : (opened start).requestsOn consumer c (before ++ [event]) = [] := by
        simp [requestsOn_concat, hrequests, requestOn?, hnone]
      rw [List.append_cons] at hs ⊢
      rcases step_new consumer hnone event with hstill | ⟨rfl, hnew⟩
      · exact ih _ (by rw [run_append]; exact hstill) hconcat hs
      · have hfresh : ((opened start).run consumer (before ++ [.accept])).connections[c]? =
            some {} := by
          rw [run_append]
          exact hnew
        have hmerged : Merged consumer start ((opened start).run consumer before) :=
          Merged.run ⟨rfl, by simp [opened]⟩ before
        have hquiet : ((opened start).run consumer (before ++ [.accept])).heardOn c = [] := by
          rw [run_append]
          apply heardOn_of_known
          intro entry hentry
          have hlt := hmerged.known entry (accept_heard consumer _ ▸ hentry)
          have hge := List.getElem?_eq_none_iff.mp hnone
          omega
        obtain ⟨s', hs', htold⟩ := (told_of_fresh hconcat hquiet).run hfresh rest
        obtain rfl := Option.some.inj (hs'.symm.trans hs)
        exact htold
  exact hlater events [] rfl rfl hs

end

end Listener

end GameRelay.Inbound
