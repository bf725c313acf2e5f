import GameRelay.Proofs.Link.Change

/-!
# The table and the calls, from step to step

In one step the table loses what it has under one id, is emptied, or takes one
call in; so it stays coherent. A step starts one call or leaves the calls as many
as they were. Ids are given out in order, so that no two of fewer than 2^64 calls
share one.
-/

set_option autoImplicit false

namespace GameRelay.Outbound

open GameRelay.Frame GameRelay.Json GameRelay.Text

namespace Link

/-! ## What one step does to the table -/

inductive TableChange (l l' : Link) : Prop where
  | same : l'.table = l.table → l'.shutDown = l.shutDown → TableChange l l'
  | removed (id : UInt64) : l'.table = l.table.filter (fun entry => entry.1 != id) →
      l'.shutDown = l.shutDown → TableChange l l'
  | emptied : l'.table = [] → TableChange l l'
  | entered (k : Nat) (c : Call) : l.calls[k]? = some c → l.shutDown = false →
      l'.shutDown = false →
      l'.table = (c.id, k) :: l.table.filter (fun entry => entry.1 != c.id) → TableChange l l'

theorem cancel_table (l : Link) (id : UInt64) :
    (l.cancel id).table = l.table.filter fun entry => entry.1 != id := by
  unfold cancel
  split
  · rename_i h
    symm
    apply List.filter_eq_self.mpr
    intro e he
    have hne : id ≠ e.1 := by simpa using List.lookup_eq_none_iff.mp h e he
    exact bne_iff_ne.mpr (Ne.symm hne)
  · rfl

theorem tableChange_of_move {l l' : Link} {event : LinkEvent} (h : l.Move event l') :
    TableChange l l' := by
  cases h with
  | none | started | refused | queued | notQueued | collected | disconnected | abandoned
  | arrived | finished | overheard | handed | wrote | queueClosed | discarded =>
    exact .same rfl rfl
  | registered k c hk hs hopen =>
    exact .entered k c hk hopen (by simp [enter, hopen]) (by simp [enter, cancel_table])
  | left k c outcome => exact .removed c.id (cancel_table l c.id) (cancel_shutDown l c.id)
  | taken text incoming response id => exact .removed id rfl rfl
  | readEnded | writeFailed => exact .emptied rfl

/-! ## The table stays coherent -/

theorem entered_of_listed {l l' : Link} {s s' : Slot} (h : Change l l' s s')
    (hs : s.listed = true → s.call.stage.isEntered = true) (hs' : s'.listed = true) :
    s'.call.stage.isEntered = true := by
  cases h <;> simp_all [Stage.isEntered]

theorem change_static {l l' : Link} {s s' : Slot} (h : Change l l' s s') :
    s'.call.id = s.call.id ∧ s'.call.method = s.call.method ∧
      s'.call.argument = s.call.argument ∧ s'.call.want = s.call.want ∧
      s'.call.line = s.call.line := by
  cases h <;> exact ⟨rfl, rfl, rfl, rfl, rfl⟩

/-- An entry after a step was there before, or is that of a call that has entered. -/
theorem call_of_entry {l l' : Link} (h : l.Coherent) (hchange : TableChange l l')
    {e : UInt64 × Nat} (he : e ∈ l'.table) : ∃ c, l.calls[e.2]? = some c ∧ c.id = e.1 := by
  have hold : e ∈ l.table → ∃ c, l.calls[e.2]? = some c ∧ c.id = e.1 := fun he => by
    obtain ⟨c, hc, hid, -⟩ := h.entries e he
    exact ⟨c, hc, hid⟩
  cases hchange with
  | same htable _ => exact hold (htable ▸ he)
  | removed id htable _ => exact hold (List.mem_of_mem_filter (htable ▸ he))
  | emptied htable => simp [htable] at he
  | entered k c hk _ _ htable =>
    rw [htable] at he
    rcases List.mem_cons.mp he with rfl | he
    · exact ⟨c, hk, rfl⟩
    · exact hold (List.mem_of_mem_filter he)

theorem keys_nodup {l l' : Link} (h : (l.table.map Prod.fst).Nodup)
    (hchange : TableChange l l') : (l'.table.map Prod.fst).Nodup := by
  have hfilter : ∀ id : UInt64,
      ((l.table.filter fun entry => entry.1 != id).map Prod.fst).Nodup := fun id =>
    h.sublist (List.filter_sublist.map Prod.fst)
  cases hchange with
  | same htable _ => exact htable ▸ h
  | removed id htable _ => exact htable ▸ hfilter id
  | emptied htable => simp [htable]
  | entered k c _ _ _ htable =>
    rw [htable, List.map_cons, List.nodup_cons]
    constructor
    · intro hmem
      obtain ⟨e, he, hid⟩ := List.mem_map.mp hmem
      exact (mem_filter_id.mp he).2 hid
    · exact hfilter c.id

theorem step_coherent {l : Link} (h : l.Coherent) (event : LinkEvent) :
    (l.step event).Coherent := by
  have htable := tableChange_of_move (step_move l event)
  constructor
  · intro e he
    obtain ⟨c, hc, hid⟩ := call_of_entry h htable he
    obtain ⟨c', hc', hchange⟩ := step_changes h event e.2 c hc
    have hid' : c'.id = e.1 := (change_static hchange).1.trans hid
    have hent : (l.slot e.2 c).listed = true → c.stage.isEntered = true := by
      intro hl
      by_contra hent
      exact h.not_listed hc (by simpa using hent) (by simpa [slot] using hl)
    exact ⟨c', hc', hid', entered_of_listed hchange hent (by simp [slot, hid', he])⟩
  · exact keys_nodup h.keys htable
  · intro hshut
    cases htable with
    | same ht hs => exact ht.trans (h.shut (hs ▸ hshut))
    | removed id ht hs => rw [ht, h.shut (hs ▸ hshut), List.filter_nil]
    | emptied ht => exact ht
    | entered k c _ _ hs _ => simp [hs] at hshut

theorem run_coherent {l : Link} (h : l.Coherent) (events : List LinkEvent) :
    (l.run events).Coherent := by
  induction events generalizing l with
  | nil => exact h
  | cons event rest ih => exact ih (step_coherent h event)

theorem fresh_coherent : ({} : Link).Coherent :=
  ⟨fun _ he => by simp at he, by simp, fun _ => rfl⟩

/-! ## What one step does to the list of calls -/

structure Started (l l' : Link) (c : Call) : Prop where
  calls : l'.calls = l.calls ++ [c]
  nextId : l'.nextId = l.nextId + 1
  id : c.id = l.nextId
  stage : c.stage = .numbered ∨ c.stage = .ended (some (.error .unencodable))
  line : c.stage = .numbered → c.argument.callLine? c.method c.id = some c.line
  mailbox : c.mailbox = .empty
  since : c.since = none
  table : l'.table = l.table
  reader : l'.reader = l.reader
  queued : l'.queued = l.queued
  heard : l'.heard = l.heard

theorem cut_foldl_length (table : List (UInt64 × Nat)) (calls : List Call) :
    (table.foldl (fun calls entry => cut calls entry.2) calls).length = calls.length := by
  induction table generalizing calls with
  | nil => rfl
  | cons e rest ih => rw [List.foldl_cons, ih, cut, List.length_modify]

@[simp] theorem cancel_length (l : Link) (id : UInt64) :
    (l.cancel id).calls.length = l.calls.length := by
  unfold cancel
  split
  · rfl
  · simp [cut]

@[simp] theorem shut_length (l : Link) : l.shut.calls.length = l.calls.length :=
  cut_foldl_length l.table l.calls

theorem start_started (l : Link) (method : String) (argument : Argument) (want : Want) :
    ∃ c, Started l (l.start method argument want) c ∧ c.method = method ∧
      c.argument = argument ∧ c.want = want := by
  cases hline : argument.callLine? method l.nextId with
  | some line | none =>
    refine ⟨_, ⟨rfl, rfl, ?_, ?_, ?_, ?_, ?_, rfl, rfl, rfl, rfl⟩, ?_⟩ <;> simp [hline]

/-- Only a start adds a call. -/
theorem length_of_move {l l' : Link} {event : LinkEvent} (h : l.Move event l')
    (hevent : ∀ method argument want, event ≠ .start method argument want) :
    l'.calls.length = l.calls.length ∧ l'.nextId = l.nextId := by
  cases h with
  | started method argument want => exact absurd rfl (hevent method argument want)
  | registered | left => simp [enter, setStage]
  | readEnded | writeFailed => exact ⟨shut_length l, rfl⟩
  | refused | queued | notQueued | collected | disconnected | abandoned | handed =>
    simp [setStage]
  | none | arrived | finished | overheard | taken | wrote | queueClosed | discarded =>
    exact ⟨rfl, rfl⟩

/-- A step starts one call, or it leaves the calls as many as they were. -/
theorem step_calls (l : Link) (event : LinkEvent) :
    ((l.step event).calls.length = l.calls.length ∧ (l.step event).nextId = l.nextId) ∨
      ∃ c, Started l (l.step event) c := by
  have hmove := step_move l event
  by_cases hevent : ∃ method argument want, event = .start method argument want
  · obtain ⟨method, argument, want, rfl⟩ := hevent
    simp only [step]
    split
    · exact .inl ⟨rfl, rfl⟩
    · obtain ⟨c, hstarted, -⟩ := start_started l method argument want
      exact .inr ⟨c, hstarted⟩
  · left
    apply length_of_move hmove
    intro method argument want he
    exact hevent ⟨method, argument, want, he⟩

theorem length_le_step (l : Link) (event : LinkEvent) :
    l.calls.length ≤ (l.step event).calls.length := by
  rcases step_calls l event with ⟨h, -⟩ | ⟨c, h⟩
  · omega
  · simp [h.calls]

/-- A call after a step was there before, or has just started. -/
theorem call_of_step {l : Link} (h : l.Coherent) (event : LinkEvent) {k : Nat} {c' : Call}
    (hk : (l.step event).calls[k]? = some c') :
    (∃ c, l.calls[k]? = some c ∧
        Change l (l.step event) (l.slot k c) ((l.step event).slot k c')) ∨
      (k = l.calls.length ∧ Started l (l.step event) c') := by
  have hlt := (List.getElem?_eq_some_iff.mp hk).1
  by_cases hold : k < l.calls.length
  · left
    have hc := List.getElem?_eq_getElem hold
    obtain ⟨c'', hc'', hchange⟩ := step_changes h event k _ hc
    obtain rfl : c'' = c' := Option.some.inj (hc''.symm.trans hk)
    exact ⟨_, hc, hchange⟩
  · right
    rcases step_calls l event with ⟨hlen, -⟩ | ⟨c, hstarted⟩
    · omega
    · have hlen : (l.step event).calls.length = l.calls.length + 1 := by simp [hstarted.calls]
      obtain rfl : k = l.calls.length := by omega
      have hc : c = c' := by simpa [hstarted.calls] using hk
      exact ⟨rfl, hc ▸ hstarted⟩

/-! ## Ids -/

structure Numbered (l : Link) : Prop where
  next : l.nextId = UInt64.ofNat l.calls.length
  ids : ∀ k c, l.calls[k]? = some c → c.id = UInt64.ofNat k

theorem step_numbered {l : Link} (h : l.Coherent) (hn : l.Numbered) (event : LinkEvent) :
    (l.step event).Numbered := by
  constructor
  · rcases step_calls l event with ⟨hlen, hnext⟩ | ⟨c, hstarted⟩
    · rw [hlen, hnext, hn.next]
    · rw [hstarted.nextId, hstarted.calls, hn.next]
      simp [UInt64.ofNat_add]
  · intro k c' hk
    rcases call_of_step h event hk with ⟨c, hc, hchange⟩ | ⟨rfl, hstarted⟩
    · exact (change_static hchange).1.trans (hn.ids k c hc)
    · exact hstarted.id.trans hn.next

theorem fresh_numbered : ({} : Link).Numbered := ⟨rfl, fun _ _ hk => by simp at hk⟩

/-- Fewer than 2^64 calls have different ids. -/
theorem Numbered.number_eq {l : Link} (hn : l.Numbered) (hlen : l.calls.length < UInt64.size)
    {j k : Nat} {cj ck : Call} (hj : l.calls[j]? = some cj) (hk : l.calls[k]? = some ck)
    (hid : cj.id = ck.id) : j = k := by
  have hjlt := Nat.lt_trans (List.getElem?_eq_some_iff.mp hj).1 hlen
  have hklt := Nat.lt_trans (List.getElem?_eq_some_iff.mp hk).1 hlen
  rw [hn.ids j cj hj, hn.ids k ck hk] at hid
  have := congrArg UInt64.toNat hid
  rwa [UInt64.toNat_ofNat_of_lt' hjlt, UInt64.toNat_ofNat_of_lt' hklt] at this

/-! ## The reader's hand and the queue -/

/-- The reader takes in hand only what is for a call in the table. -/
theorem reader_of_move {l l' : Link} {event : LinkEvent} (h : l.Move event l') {j : Nat}
    {response : Response} (hr : l'.reader = .handing j response) :
    l.reader = .handing j response ∨ ∃ id, (id, j) ∈ l.table := by
  cases h with
  | taken text incoming response id k _ _ hl =>
    obtain ⟨rfl, -⟩ := Reader.handing.inj hr
    exact .inr ⟨id, mem_of_lookup hl⟩
  | readEnded | handed | discarded => simp at hr
  | registered | left => exact .inl (by simpa [enter, setStage] using hr)
  | none | started | refused | queued | notQueued | collected | disconnected | abandoned
  | arrived | finished | overheard | wrote | writeFailed | queueClosed => exact .inl hr

/-- The queue grows by one call, and what the writer has been given by the line of that
call; or neither does. -/
theorem queued_of_move {l l' : Link} {event : LinkEvent} (h : l.Move event l') :
    (l'.queued = l.queued ∧ l'.written ++ l'.unwritten = l.written ++ l.unwritten) ∨
      ∃ k c, l.calls[k]? = some c ∧ l'.queued = l.queued ++ [k] ∧
        l'.written ++ l'.unwritten = l.written ++ l.unwritten ++ encode c.line := by
  cases h with
  | queued k c hk => exact .inr ⟨k, c, hk, rfl, (List.append_assoc _ _ _).symm⟩
  | registered | left => exact .inl (by simp [enter, setStage])
  | wrote count =>
    left
    constructor
    · rfl
    · rw [List.append_assoc, List.take_append_drop]
  | none | started | refused | notQueued | collected | disconnected | abandoned | arrived
  | finished | overheard | taken | readEnded | handed | writeFailed | queueClosed | discarded =>
    exact .inl ⟨rfl, rfl⟩

def lineBytes (l : Link) (k : Nat) : List UInt8 :=
  match l.calls[k]? with
  | some c => encode c.line
  | none => []

theorem lineBytes_of_step {l : Link} (h : l.Coherent) (event : LinkEvent) {k : Nat}
    (hk : k < l.calls.length) : (l.step event).lineBytes k = l.lineBytes k := by
  have hc := List.getElem?_eq_getElem hk
  obtain ⟨c', hc', hchange⟩ := step_changes h event k _ hc
  obtain ⟨-, -, -, -, hline⟩ := change_static hchange
  have hline : c'.line = l.calls[k].line := hline
  simp only [lineBytes, hc', hc, hline]

end Link

end GameRelay.Outbound
