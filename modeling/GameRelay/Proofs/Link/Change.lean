import GameRelay.Proofs.Link.Slot

/-!
# What one step of a link can do to one of its calls

Each step of a call, of the reader and of the writer is one of the changes that
`Change` lists, to every call of the link.
-/

set_option autoImplicit false

namespace GameRelay.Outbound

open GameRelay.Frame GameRelay.Json GameRelay.Text

namespace Link

/-! ## The steps of a call -/

theorem setStage_call (l : Link) (stage : Stage) {k : Nat} {c : Call}
    (hk : l.calls[k]? = some c) : (l.setStage k stage).calls[k]? = some { c with stage } := by
  simp [setStage, hk]

theorem setStage_other (l : Link) (stage : Stage) {j k : Nat} (h : k ≠ j) :
    (l.setStage j stage).calls[k]? = l.calls[k]? := by
  simp [setStage, Ne.symm h]

/-- A call goes on, and nobody else notices. -/
theorem changes_of_stage {l l' : Link} {j : Nat} {cj : Call} (stage : Stage)
    (hj : l.calls[j]? = some cj) (hcalls : l'.calls = (l.setStage j stage).calls)
    (htable : l'.table = l.table) (hreader : l'.reader = l.reader)
    (hqueued : ∀ k, k ≠ j → l'.queued.count k = l.queued.count k) (hheard : l'.heard = l.heard)
    (hshut : l'.shutDown = l.shutDown)
    (hown : Change l l' (l.slot j cj) (l'.slot j { cj with stage })) : Changes l l' := by
  intro k c hk
  by_cases hkj : k = j
  · subst hkj
    obtain rfl : cj = c := Option.some.inj (hj.symm.trans hk)
    exact ⟨_, by rw [hcalls, setStage_call l stage hk], hown⟩
  · have hc : l'.calls[k]? = some c := by rw [hcalls, setStage_other l stage hkj, hk]
    have hslot : l'.slot k c = l.slot k c := by
      simp [slot, inHand?, htable, hreader, hqueued k hkj]
    exact ⟨c, hc, hslot ▸ .same hheard hshut⟩

/-- What becomes of another call when the id of the `j`-th one is taken out. -/
theorem cancel_other {l : Link} (h : l.Coherent) {k : Nat} {c : Call} (cj : Call)
    (hk : l.calls[k]? = some c) :
    ((l.cancel cj.id).calls[k]? = some c ∧
        ((c.id, k) ∈ (l.cancel cj.id).table ↔ (c.id, k) ∈ l.table)) ∨
      ((l.cancel cj.id).calls[k]? = some { c with mailbox := c.mailbox.cutOff } ∧
        (c.id, k) ∉ (l.cancel cj.id).table ∧ (c.id, k) ∈ l.table ∧ cj.id = c.id) := by
  have hc := cancel_call h cj.id hk
  by_cases hm : (cj.id, k) ∈ l.table
  · obtain ⟨c', hc', hid, -⟩ := h.entries _ hm
    obtain rfl : c' = c := Option.some.inj (hc'.symm.trans hk)
    replace hid : c'.id = cj.id := hid
    have hout : (c'.id, k) ∉ (l.cancel cj.id).table := by
      rw [mem_cancel]
      exact fun he => he.2 hid
    exact .inr ⟨by simpa [hm] using hc, hout, hid ▸ hm, hid.symm⟩
  · left
    constructor
    · simpa [hm] using hc
    · rw [mem_cancel]
      exact ⟨And.left, fun he => ⟨he, fun hid : c.id = cj.id => hm (hid ▸ he)⟩⟩

theorem Coherent.not_listed {l : Link} (h : l.Coherent) {k : Nat} {c : Call}
    (hk : l.calls[k]? = some c) (hc : c.stage.isEntered = false) : (c.id, k) ∉ l.table := by
  intro he
  obtain ⟨c', hc', -, hent⟩ := h.entries _ he
  obtain rfl : c' = c := Option.some.inj (hc'.symm.trans hk)
  simp [hc] at hent

/-- A call enters the table; another one of its id would have to go. -/
theorem changes_of_entry {l l' : Link} (h : l.Coherent) {j : Nat} {cj : Call}
    (hj : l.calls[j]? = some cj) (hs : cj.stage = .numbered) (hopen : l.shutDown = false)
    (hcalls : l'.calls = (l.cancel cj.id).calls.modify j fun c =>
      { c with stage := .registered, since := some l.heard.length })
    (htable : l'.table = (cj.id, j) :: (l.cancel cj.id).table) (hreader : l'.reader = l.reader)
    (hqueued : l'.queued = l.queued) (hheard : l'.heard = l.heard)
    (hshut : l'.shutDown = l.shutDown) : Changes l l' := by
  intro k c hk
  by_cases hkj : k = j
  · subst hkj
    obtain rfl : cj = c := Option.some.inj (hj.symm.trans hk)
    have hfree := h.not_listed hj (by simp [hs, Stage.isEntered])
    have hc : (l.cancel cj.id).calls[k]? = some cj := by
      simpa [hfree] using cancel_call h cj.id hj
    have hchange : Change l l' (l.slot k cj) _ := .registered hheard hshut hopen hs
    exact ⟨{ cj with stage := .registered, since := some l.heard.length }, by
      simp [hcalls, hc], by simpa [slot, inHand?, htable, hreader, hqueued] using hchange⟩
  · have hne : (c.id, k) ≠ (cj.id, j) := fun he => hkj (congrArg Prod.snd he)
    rcases cancel_other h cj hk with ⟨hc, hm⟩ | ⟨hc, hout, hin, hid⟩
    · have hslot : l'.slot k c = l.slot k c :=
        slot_eq (by rw [htable, List.mem_cons, or_iff_right hne, hm]) hreader hqueued
      exact ⟨c, by simp [hcalls, hc, Ne.symm hkj], hslot ▸ .same hheard hshut⟩
    · have hout' : (c.id, k) ∉ l'.table := by
        rw [htable, List.mem_cons, or_iff_right hne]
        exact hout
      have hchange : Change l l' (l.slot k c) _ :=
        .pushedOut j cj hheard hshut (Ne.symm hkj) hj hid (by simpa [slot] using hin)
      exact ⟨{ c with mailbox := c.mailbox.cutOff }, by simp [hcalls, hc, Ne.symm hkj],
        by simpa [slot, inHand?, hout', hreader, hqueued] using hchange⟩

/-- The line of a call joins the queue. -/
theorem changes_of_line {l l' : Link} {j : Nat} {cj : Call} (hj : l.calls[j]? = some cj)
    (hs : cj.stage = .registered) (hcalls : l'.calls = (l.setStage j .waiting).calls)
    (htable : l'.table = l.table) (hreader : l'.reader = l.reader)
    (hqueued : l'.queued = l.queued ++ [j]) (hheard : l'.heard = l.heard)
    (hshut : l'.shutDown = l.shutDown) : Changes l l' := by
  have hothers : ∀ k, k ≠ j → l'.queued.count k = l.queued.count k := by
    intro k hkj
    simp [hqueued, Ne.symm hkj]
  apply changes_of_stage .waiting hj hcalls htable hreader hothers hheard hshut
  have hchange : Change l l' (l.slot j cj) _ := .queued hheard hshut hs
  simpa [slot, inHand?, htable, hreader, hqueued] using hchange

/-- A call takes its id out of the table and ends. -/
theorem leave_changes {l : Link} (h : l.Coherent) {j : Nat} {cj : Call}
    {outcome : Option Outcome} (hj : l.calls[j]? = some cj) (hs : cj.stage = .leaving outcome) :
    Changes l ((l.cancel cj.id).setStage j (.ended outcome)) := by
  intro k c hk
  by_cases hkj : k = j
  · subst hkj
    obtain rfl : cj = c := Option.some.inj (hj.symm.trans hk)
    have hout : (cj.id, k) ∉ (l.cancel cj.id).table := fun he => ((mem_cancel _ _ _).mp he).2 rfl
    obtain ⟨mailbox, hc, hmailbox⟩ : ∃ mailbox,
        (l.cancel cj.id).calls[k]? = some { cj with mailbox } ∧
          (mailbox = cj.mailbox ∨ mailbox = cj.mailbox.cutOff) := by
      rcases cancel_other h cj hk with ⟨hc, -⟩ | ⟨hc, -⟩
      · exact ⟨cj.mailbox, hc, .inl rfl⟩
      · exact ⟨_, hc, .inr rfl⟩
    have hchange : Change l ((l.cancel cj.id).setStage k (.ended outcome)) (l.slot k cj) _ :=
      .left outcome (by simp [setStage]) (by simp [setStage]) hs mailbox hmailbox
    exact ⟨_, setStage_call _ _ hc, by simpa [slot, inHand?, setStage, hout] using hchange⟩
  · rcases cancel_other h cj hk with ⟨hc, hm⟩ | ⟨hc, hout, hin, hid⟩
    · have hslot : ((l.cancel cj.id).setStage j (.ended outcome)).slot k c = l.slot k c :=
        slot_eq hm (cancel_reader _ _) (cancel_queued _ _)
      exact ⟨c, by rw [setStage_other _ _ hkj, hc],
        hslot ▸ .same (cancel_heard _ _) (cancel_shutDown _ _)⟩
    · have hchange : Change l ((l.cancel cj.id).setStage j (.ended outcome)) (l.slot k c) _ :=
        .pushedOut j cj (by simp [setStage]) (by simp [setStage]) (Ne.symm hkj) hj hid
          (by simpa [slot] using hin)
      exact ⟨_, by rw [setStage_other _ _ hkj, hc],
        by simpa [slot, inHand?, setStage, hout] using hchange⟩

/-! ## The steps of the reader and of the writer -/

/-- The table is shut down, by whichever of the two. -/
theorem changes_of_shut {l l' : Link} (h : l.Coherent) (hcalls : l'.calls = l.shut.calls)
    (htable : l'.table = []) (hreader : ∀ k, l'.inHand? k = l.inHand? k)
    (hqueued : l'.queued = l.queued) (hheard : l'.heard = l.heard ++ [.shutDown])
    (hshut : l'.shutDown = true) : Changes l l' := by
  intro k c hk
  have hc := shut_call h hk
  by_cases hm : (c.id, k) ∈ l.table
  · have hchange : Change l l' (l.slot k c) _ := .cutOff hheard hshut (by simpa [slot] using hm)
    exact ⟨{ c with mailbox := c.mailbox.cutOff }, by simpa [hcalls, hm] using hc,
      by simpa [slot, htable, hreader, hqueued] using hchange⟩
  · have hslot : l'.slot k c = l.slot k c := by simp [slot, htable, hm, hreader, hqueued]
    have hchange : Change l l' (l.slot k c) (l.slot k c) :=
      .passedBy hheard hshut (by simpa [slot] using hm)
    exact ⟨c, by simpa [hcalls, hm] using hc, hslot ▸ hchange⟩

/-- A line is heard that is no answer to a call in the table. -/
theorem changes_of_noise {l l' : Link} (text : String) (hcalls : l'.calls = l.calls)
    (htable : l'.table = l.table) (hreader : l'.reader = l.reader)
    (hqueued : l'.queued = l.queued) (hheard : l'.heard = l.heard ++ [.line text])
    (hshut : l'.shutDown = l.shutDown)
    (hnoise : ∀ e ∈ l.table, answer? e.1 text = none) : Changes l l' := by
  intro k c hk
  have hslot : l'.slot k c = l.slot k c := slot_eq (by rw [htable]) hreader hqueued
  have hchange : Change l l' (l.slot k c) (l.slot k c) :=
    .overheard text hheard hshut fun hl => hnoise _ (by simpa [slot] using hl)
  exact ⟨c, hcalls ▸ hk, hslot ▸ hchange⟩

/-- A line is heard that answers the call in the table under its id. -/
theorem changes_of_answer {l l' : Link} (h : l.Coherent) (text : String) (response : Response)
    {id : UInt64} {j : Nat} (hj : (id, j) ∈ l.table) (hidle : ∀ k, l.inHand? k = none)
    (hcalls : l'.calls = l.calls)
    (htable : l'.table = l.table.filter fun entry => entry.1 != id)
    (hreader : l'.reader = .handing j response) (hqueued : l'.queued = l.queued)
    (hheard : l'.heard = l.heard ++ [.line text]) (hshut : l'.shutDown = l.shutDown)
    (hanswer : ∀ i, answer? i text = if i = id then some response else none) :
    Changes l l' := by
  intro k c hk
  refine ⟨c, hcalls ▸ hk, ?_⟩
  have hout : (c.id, k) ∈ l'.table ↔ (c.id, k) ∈ l.table ∧ c.id ≠ id := by
    rw [htable]
    exact mem_filter_id
  obtain ⟨c', hc', hid, -⟩ := h.entries _ hj
  obtain rfl : c'.id = id := hid
  by_cases hkj : k = j
  · subst hkj
    obtain rfl : c' = c := Option.some.inj (hc'.symm.trans hk)
    have hchange : Change l l' (l.slot k c') _ :=
      .answered text response hheard hshut (by simp [slot, hanswer]) (by simpa [slot] using hj)
    simpa [slot, inHand?, hout, hreader, hqueued] using hchange
  · have hother : (c.id, k) ∈ l.table → c.id ≠ c'.id := fun he hci =>
      hkj (h.entry_unique (hci ▸ he) hj)
    have hslot : l'.slot k c = l.slot k c := by
      have hhand : l'.inHand? k = l.inHand? k := by
        rw [hidle k]
        simp [inHand?, hreader, Ne.symm hkj]
      simp [slot, hhand, hqueued, hout, and_iff_left_of_imp hother]
    rw [hslot]
    apply Change.overheard text hheard hshut
    intro hl
    exact (hanswer c.id).trans (if_neg (hother (by simpa [slot] using hl)))

theorem answer?_eq_ite {text : String} {response : Response} {id : UInt64}
    (h : answer? id text = some response) (i : UInt64) :
    answer? i text = if i = id then some response else none := by
  obtain ⟨hp, hid⟩ := answer?_eq_some_iff.mp h
  simp [answer?_of_parse hp, hid, eq_comm]

/-- The reader hands over the response that it has in hand. -/
theorem changes_of_hand {l l' : Link} {j : Nat} {response : Response}
    (hr : l.reader = .handing j response)
    (hcalls : l'.calls = l.calls.modify j fun c => { c with mailbox := .answered response })
    (htable : l'.table = l.table) (hreader : l'.reader = .idle) (hqueued : l'.queued = l.queued)
    (hheard : l'.heard = l.heard) (hshut : l'.shutDown = l.shutDown) : Changes l l' := by
  intro k c hk
  by_cases hkj : k = j
  · subst hkj
    have hchange : Change l l' (l.slot k c) _ :=
      .handed response hheard hshut (inHand?_eq_some_iff.mpr hr)
    exact ⟨{ c with mailbox := .answered response }, by simp [hcalls, hk],
      by simpa [slot, inHand?, htable, hreader, hqueued] using hchange⟩
  · have hslot : l'.slot k c = l.slot k c := by
      simp [slot, inHand?, htable, hreader, hqueued, hr, Ne.symm hkj]
    exact ⟨c, by simp [hcalls, hk, Ne.symm hkj], hslot ▸ .same hheard hshut⟩

/-! ## Any step -/

theorem start_changes (l : Link) (method : String) (argument : Argument) (want : Want) :
    Changes l (l.start method argument want) := by
  intro k c hk
  have hc : (l.start method argument want).calls[k]? = some c := by
    rw [← hk]
    exact List.getElem?_append_left (List.getElem?_eq_some_iff.mp hk).1
  exact ⟨c, hc, .same rfl rfl⟩

theorem discard_changes {l : Link} (hall : l.calls.all Call.isOver = true) :
    Changes l { l with reader := .ended, writer := .ended, dropped := true } := by
  intro k c hk
  have hover : c.isOver = true := List.all_eq_true.mp hall c (List.mem_of_getElem? hk)
  exact ⟨c, hk, .dropped rfl rfl hover⟩

theorem changes_of_move {l l' : Link} {event : LinkEvent} (h : l.Coherent)
    (hmove : l.Move event l') : Changes l l' := by
  cases hmove with
  | none | arrived | finished | wrote | queueClosed => exact changes_same rfl rfl rfl rfl rfl rfl
  | started method argument want _ => exact start_changes l method argument want
  | refused k c hk hs hshut =>
    exact changes_of_stage _ hk rfl rfl rfl (fun _ _ => rfl) rfl rfl (.refused rfl rfl hshut hs)
  | registered k c hk hs hopen =>
    exact changes_of_entry h hk hs hopen (by simp [enter]) rfl (by simp [enter]) (by simp [enter])
      (by simp [enter]) (by simp [enter])
  | queued k c hk hs _ => exact changes_of_line hk hs rfl rfl rfl rfl rfl rfl
  | notQueued k c hk hs hw =>
    exact changes_of_stage _ hk rfl rfl rfl (fun _ _ => rfl) rfl rfl (.notQueued rfl rfl hw hs)
  | collected k c response hk hs hm =>
    exact changes_of_stage _ hk rfl rfl rfl (fun _ _ => rfl) rfl rfl
      (.collected response rfl rfl hs hm)
  | disconnected k c hk hs hm =>
    exact changes_of_stage _ hk rfl rfl rfl (fun _ _ => rfl) rfl rfl (.disconnected rfl rfl hs hm)
  | abandoned k c hk hs =>
    exact changes_of_stage _ hk rfl rfl rfl (fun _ _ => rfl) rfl rfl (.abandoned rfl rfl hs)
  | left k c outcome hk hs => exact leave_changes h hk hs
  | overheard text incoming reports _ hnone =>
    have hnoise : ∀ e ∈ l.table, answer? e.1 text = none := by
      intro e he
      by_contra hne
      simpa using List.lookup_eq_none_iff.mp (hnone e.1 hne) e he
    exact changes_of_noise text rfl rfl rfl rfl rfl rfl hnoise
  | taken text incoming response id k hreads hanswer hl =>
    have hidle : ∀ k, l.inHand? k = none := fun k => by simp [inHand?, hreads.1]
    exact changes_of_answer h text response (mem_of_lookup hl) hidle rfl rfl rfl rfl rfl rfl
      (answer?_eq_ite hanswer)
  | readEnded incoming reports hidle _ =>
    exact changes_of_shut h rfl rfl (fun k => by simp [inHand?, hidle]) rfl rfl rfl
  | handed k response hr => exact changes_of_hand hr rfl rfl rfl rfl rfl rfl
  | writeFailed error _ _ => exact changes_of_shut h rfl rfl (fun _ => rfl) rfl rfl rfl
  | discarded hall => exact discard_changes hall

theorem step_changes {l : Link} (h : l.Coherent) (event : LinkEvent) :
    Changes l (l.step event) :=
  changes_of_move h (step_move l event)

end Link

end GameRelay.Outbound
