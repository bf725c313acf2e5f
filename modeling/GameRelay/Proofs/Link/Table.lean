import GameRelay.Proofs.Link.Growth

/-!
# The table of pending calls

The table holds exactly the calls that have entered it, have not been handed
anything and have not ended. No call is pushed out of it by another, as long as
no two calls have the same id.
-/

set_option autoImplicit false

namespace GameRelay.Outbound

open GameRelay.Frame GameRelay.Json GameRelay.Text

def Mailbox.receive (m : Mailbox) : Option Response → Mailbox
  | some response => .answered response
  | none => m

def Slot.letter (s : Slot) : Mailbox := s.call.mailbox.receive s.inHand

/-! ## Being in the table -/

structure Slot.Sound (s : Slot) : Prop where
  listed_iff : s.listed = true ↔ s.call.stage.isEntered = true ∧ s.letter = .empty
  numbered : s.call.stage = .numbered → s.letter = .empty
  since : s.call.isOver = false → s.call.since.isSome = s.call.stage.isEntered
  hand : s.call.stage.isEntered = true → s.inHand ≠ none → s.call.mailbox = .empty

theorem Mailbox.cutOff_ne_empty (m : Mailbox) : m.cutOff ≠ .empty := by
  cases m <;> simp [cutOff]

theorem Call.isEntered_of_isOver {c : Call} (h : c.isOver = true) :
    c.stage.isEntered = false := by
  revert h
  cases hs : c.stage <;> simp [Call.isOver, hs, Stage.isEntered]

namespace Slot

theorem letter_eq_empty {s : Slot} (h : s.letter = .empty) :
    s.inHand = none ∧ s.call.mailbox = .empty := by
  unfold letter at h
  cases hhand : s.inHand with
  | none => exact ⟨rfl, by simpa [hhand, Mailbox.receive] using h⟩
  | some response => simp [hhand, Mailbox.receive] at h

theorem since_of_change {l l' : Link} {s s' : Slot} (h : s.Sound) (hchange : Change l l' s s') :
    s'.call.isOver = false → s'.call.since.isSome = s'.call.stage.isEntered := by
  have hsince := h.since
  cases hchange <;> simp_all [Call.isOver, Stage.isEntered]

theorem hand_of_change {l l' : Link} {s s' : Slot} (h : s.Sound) (hchange : Change l l' s s') :
    s'.call.stage.isEntered = true → s'.inHand ≠ none → s'.call.mailbox = .empty := by
  intro hent hhand
  have hlisted : s.listed = true → s.inHand = none ∧ s.call.mailbox = .empty := fun hl =>
    letter_eq_empty (h.listed_iff.mp hl).2
  cases hchange with
  | same | overheard | passedBy => exact h.hand hent hhand
  | answered text response _ _ _ hl => exact (hlisted hl).2
  | cutOff _ _ hl | pushedOut _ _ _ _ _ _ _ hl => exact absurd (hlisted hl).1 hhand
  | handed | dropped => exact absurd rfl hhand
  | registered _ _ _ hs => exact (letter_eq_empty (h.numbered hs)).2
  | queued _ _ hs | notQueued _ _ _ hs | collected _ _ _ hs | disconnected _ _ hs
  | abandoned _ _ hs => exact h.hand (by simp [hs, Stage.isEntered]) hhand
  | refused | left => simp [Stage.isEntered] at hent

theorem numbered_of_change {l l' : Link} {s s' : Slot} (h : s.Sound)
    (hchange : Change l l' s s') : s'.call.stage = .numbered → s'.letter = .empty := by
  intro hs
  have hunlisted : s.call.stage = .numbered → s.listed ≠ true := fun hs hl => by
    simpa [hs, Stage.isEntered] using (h.listed_iff.mp hl).1
  cases hchange with
  | same | overheard | passedBy => exact h.numbered hs
  | answered _ _ _ _ _ hl | cutOff _ _ hl | pushedOut _ _ _ _ _ _ _ hl =>
    exact absurd hl (hunlisted hs)
  | handed response _ _ hhand =>
    have := (letter_eq_empty (h.numbered hs)).1
    simp [hhand] at this
  | dropped _ _ hover =>
    have hs : s.call.stage = .numbered := hs
    simp [Call.isOver, hs] at hover
  | refused | registered | queued | notQueued | collected | disconnected | abandoned | left =>
    simp at hs

theorem listed_of_change {l l' : Link} {s s' : Slot} (h : s.Sound) (hchange : Change l l' s s') :
    s'.listed = true ↔ s'.call.stage.isEntered = true ∧ s'.letter = .empty := by
  have hlisted := h.listed_iff
  cases hchange with
  | same | overheard | passedBy => exact hlisted
  | answered text response _ _ _ hl => simp [letter, Mailbox.receive]
  | cutOff _ _ hl | pushedOut j other _ _ _ _ _ hl =>
    have hhand := (letter_eq_empty (hlisted.mp hl).2).1
    simp [letter, hhand, Mailbox.receive, Mailbox.cutOff_ne_empty]
  | handed response _ _ hhand => simp [letter, hlisted, hhand, Mailbox.receive]
  | refused _ _ _ hs =>
    have hfree : s.listed = false := by
      by_contra hl
      simpa [hs, Stage.isEntered] using (hlisted.mp (by simpa using hl)).1
    simp [hfree, Stage.isEntered]
  | registered _ _ _ hs => simpa [letter, Stage.isEntered] using h.numbered hs
  | queued _ _ hs | notQueued _ _ _ hs | collected response _ _ hs hm | disconnected _ _ hs hm
  | abandoned _ _ hs => simpa [letter, hs, Stage.isEntered] using hlisted
  | left outcome _ _ _ mailbox => simp [Stage.isEntered]
  | dropped _ _ hover => simpa [Call.isEntered_of_isOver hover] using hlisted

theorem sound_of_change {l l' : Link} {s s' : Slot} (h : s.Sound) (hchange : Change l l' s s') :
    s'.Sound :=
  ⟨listed_of_change h hchange, numbered_of_change h hchange, since_of_change h hchange,
    hand_of_change h hchange⟩

end Slot

namespace Link

/-! ## Every reachable link -/

structure Tidy (l : Link) : Prop where
  coherent : l.Coherent
  numbered : l.Numbered
  hand : ∀ j response, l.reader = .handing j response → j < l.calls.length
  queued : ∀ k ∈ l.queued, k < l.calls.length
  bytes : l.written ++ l.unwritten = l.queued.flatMap l.lineBytes
  sound : ∀ k c, l.calls[k]? = some c → (l.slot k c).Sound

/-- Nothing was in the table, in hand or in the queue for a call before it started. -/
theorem slot_of_started {l l' : Link} {c : Call} (h : l.Tidy) (hs : Started l l' c) :
    l'.slot l.calls.length c = ⟨l.calls.length, c, false, none, 0⟩ := by
  have hlisted : (c.id, l.calls.length) ∉ l.table := fun he => by
    obtain ⟨c', hc', -⟩ := h.coherent.entries _ he
    have := (List.getElem?_eq_some_iff.mp hc').1
    omega
  have hhand : l.inHand? l.calls.length = none := by
    cases hin : l.inHand? l.calls.length with
    | none => rfl
    | some response =>
      have := h.hand _ response (inHand?_eq_some_iff.mp hin)
      omega
  have hlines : l.queued.count l.calls.length = 0 :=
    List.count_eq_zero.mpr fun he => Nat.lt_irrefl _ (h.queued _ he)
  have hhand' : l'.inHand? l.calls.length = none := by
    rw [← hhand]
    simp only [inHand?, hs.reader]
  simp [slot, hs.table, hs.queued, hlisted, hlines, hhand']

theorem sound_of_started {l l' : Link} {c : Call} (h : l.Tidy) (hs : Started l l' c) :
    (l'.slot l.calls.length c).Sound := by
  rw [slot_of_started h hs]
  have hletter : (⟨l.calls.length, c, false, none, 0⟩ : Slot).letter = .empty := hs.mailbox
  constructor
  · rcases hs.stage with hstage | hstage <;> simp [hstage, Stage.isEntered]
  · intro _
    exact hletter
  · rcases hs.stage with hstage | hstage <;>
      simp [Call.isOver, hstage, hs.since, Stage.isEntered]
  · intro _ hhand
    exact absurd rfl hhand

theorem step_tidy {l : Link} (h : l.Tidy) (event : LinkEvent) : (l.step event).Tidy where
  coherent := step_coherent h.coherent event
  numbered := step_numbered h.coherent h.numbered event
  hand j response hr := by
    have hle := length_le_step l event
    rcases reader_of_move (step_move l event) hr with hr | ⟨id, he⟩
    · have := h.hand j response hr
      omega
    · obtain ⟨c, hc, -⟩ := h.coherent.entries _ he
      have := (List.getElem?_eq_some_iff.mp hc).1
      omega
  queued k hk := by
    have hle := length_le_step l event
    rcases queued_of_move (step_move l event) with ⟨hq, -⟩ | ⟨j, c, hj, hq, -⟩
    · have := h.queued k (hq ▸ hk)
      omega
    · rw [hq] at hk
      rcases List.mem_append.mp hk with hk | hk
      · have := h.queued k hk
        omega
      · obtain rfl := List.mem_singleton.mp hk
        have := (List.getElem?_eq_some_iff.mp hj).1
        omega
  bytes := by
    have hold : l.queued.flatMap (l.step event).lineBytes = l.queued.flatMap l.lineBytes :=
      List.flatMap_congr fun k hk => lineBytes_of_step h.coherent event (h.queued k hk)
    rcases queued_of_move (step_move l event) with ⟨hq, hb⟩ | ⟨j, c, hj, hq, hb⟩
    · rw [hb, hq, hold, h.bytes]
    · have hjlt := (List.getElem?_eq_some_iff.mp hj).1
      rw [hb, hq, List.flatMap_append, hold, h.bytes, List.flatMap_singleton,
        lineBytes_of_step h.coherent event hjlt]
      simp only [lineBytes, hj]
  sound k c' hk := by
    rcases call_of_step h.coherent event hk with ⟨c, hc, hchange⟩ | ⟨rfl, hstarted⟩
    · exact Slot.sound_of_change (h.sound k c hc) hchange
    · exact sound_of_started h hstarted

theorem fresh_tidy : ({} : Link).Tidy :=
  ⟨fresh_coherent, fresh_numbered, fun _ _ h => by simp at h, fun _ h => by simp at h, rfl,
    fun _ _ h => by simp at h⟩

theorem run_tidy {l : Link} (h : l.Tidy) (events : List LinkEvent) : (l.run events).Tidy := by
  induction events generalizing l with
  | nil => exact h
  | cons event rest ih => exact ih (step_tidy h event)

/-- What holds of every new call and is kept by all that can happen to a call holds
of every call of a link, at any moment. -/
theorem run_slots {P : Link → Slot → Prop}
    (hnew : ∀ l l' c, Started l l' c → P l' ⟨l.calls.length, c, false, none, 0⟩)
    (hkept : ∀ l l' k c s', l.Tidy → l.calls.length ≤ l'.calls.length → l.calls[k]? = some c →
      Change l l' (l.slot k c) s' → P l (l.slot k c) → P l' s')
    (events : List LinkEvent) {l : Link} (h : l.Tidy)
    (hl : ∀ k c, l.calls[k]? = some c → P l (l.slot k c)) :
    ∀ k c, (l.run events).calls[k]? = some c → P (l.run events) ((l.run events).slot k c) := by
  induction events generalizing l with
  | nil => exact hl
  | cons event rest ih =>
    apply ih (step_tidy h event)
    intro k c' hk
    rcases call_of_step h.coherent event hk with ⟨c, hc, hchange⟩ | ⟨rfl, hstarted⟩
    · exact hkept l _ k c _ h (length_le_step l event) hc hchange (hl k c hc)
    · rw [slot_of_started h hstarted]
      exact hnew l _ c' hstarted

/-! ## What the table says about the calls -/

structure Pending (l : Link) (k : Nat) (c : Call) : Prop where
  registered : c.since.isSome = true
  going : c.isOver = false
  unanswered : ∀ response, l.reader ≠ .handing k response ∧ c.mailbox ≠ .answered response

structure TableExact (l : Link) : Prop where
  /-- As long as it is open, its keys are the ids of the pending calls. -/
  keys : l.shutDown = false → ∀ id,
    id ∈ l.table.map Prod.fst ↔ ∃ k c, l.calls[k]? = some c ∧ c.id = id ∧ l.Pending k c
  distinct : (l.table.map Prod.fst).Nodup
  below : ∀ e ∈ l.table, e.1 < l.nextId
  /-- A key is the id of one call only, the one that its entry names. -/
  owner : ∀ e ∈ l.table, ∀ k c, l.calls[k]? = some c → (c.id = e.1 ↔ k = e.2)
  emptied : l.shutDown = true → l.table = []
  /-- Nobody is stranded: a call that goes on after it registered has its entry, or the
  reader is about to hand it its response, or it was handed that, or it was cut off. -/
  kept : ∀ k c, l.calls[k]? = some c → c.since.isSome = true → c.isOver = false →
    (c.id, k) ∈ l.table ∨ (∃ response, l.reader = .handing k response) ∨
      (∃ response, c.mailbox = .answered response) ∨ (c.mailbox = .cut ∧ l.shutDown = true)
  gone : ∀ c ∈ l.calls, c.isOver = true → c.id ∉ l.table.map Prod.fst

theorem letter_cases (l : Link) (k : Nat) (c : Call) :
    (∃ response, l.reader = .handing k response ∧ (l.slot k c).letter = .answered response) ∨
      ((∀ response, l.reader ≠ .handing k response) ∧ (l.slot k c).letter = c.mailbox) := by
  cases hhand : l.inHand? k with
  | some response =>
    left
    exact ⟨response, inHand?_eq_some_iff.mp hhand,
      by simp [Slot.letter, slot, hhand, Mailbox.receive]⟩
  | none =>
    right
    constructor
    · intro response hr
      simp [inHand?_eq_some_iff.mpr hr] at hhand
    · simp [Slot.letter, slot, hhand, Mailbox.receive]

/-- Only a table that was shut down cuts calls off. -/
theorem run_cut (events : List LinkEvent) (k : Nat) (c : Call)
    (hlen : (({} : Link).run events).calls.length < UInt64.size)
    (hk : (({} : Link).run events).calls[k]? = some c) (hent : c.stage.isEntered = true)
    (hcut : ((({} : Link).run events).slot k c).letter = .cut) :
    (({} : Link).run events).shutDown = true := by
  apply run_slots (P := fun l s => l.calls.length < UInt64.size → s.call.stage.isEntered = true →
    s.letter = .cut → l.shutDown = true) _ _ events fresh_tidy _ k c hk hlen hent hcut
  · intro l l' c hstarted _ _ hcut
    have hletter : (⟨l.calls.length, c, false, none, 0⟩ : Slot).letter = .empty :=
      hstarted.mailbox
    simp [hletter] at hcut
  · intro l l' k c s' h hle hk hchange ih hlen hent hcut
    have hsound := h.sound k c hk
    have hlen' : l.calls.length < UInt64.size := Nat.lt_of_le_of_lt hle hlen
    cases hchange with
    | same _ hshut | overheard _ _ hshut => exact hshut ▸ ih hlen' hent hcut
    | cutOff _ hshut | passedBy _ hshut => exact hshut
    | answered | handed => simp [Slot.letter, Mailbox.receive] at hcut
    | registered _ _ _ hs =>
      have hempty := hsound.numbered hs
      simp [Slot.letter] at hempty hcut
      simp [hempty] at hcut
    | queued _ hshut hs | collected _ _ hshut hs | disconnected _ hshut hs
    | abandoned _ hshut hs | notQueued _ hshut _ hs =>
      exact hshut ▸ ih hlen' (by simp [hs, Stage.isEntered]) hcut
    | refused | left => simp [Stage.isEntered] at hent
    | pushedOut j other _ _ hne hj hid =>
      exact absurd (h.numbered.number_eq hlen' hj hk hid) hne
    | dropped _ _ hover =>
      have hent : (l.slot k c).call.stage.isEntered = true := hent
      simp [Call.isEntered_of_isOver hover] at hent
  · intro k c hk
    simp at hk

theorem entered_of_since {l : Link} (h : l.Tidy) {k : Nat} {c : Call} (hk : l.calls[k]? = some c)
    (hreg : c.since.isSome = true) (hgoing : c.isOver = false) : c.stage.isEntered = true :=
  ((h.sound k c hk).since hgoing).symm.trans hreg

theorem listed_of_empty {l : Link} (h : l.Tidy) {k : Nat} {c : Call}
    (hk : l.calls[k]? = some c) (hent : c.stage.isEntered = true)
    (hempty : (l.slot k c).letter = .empty) : (c.id, k) ∈ l.table := by
  have := (h.sound k c hk).listed_iff.mpr ⟨hent, hempty⟩
  simpa [slot] using this

theorem pending_of_listed {l : Link} (h : l.Tidy) {k : Nat} {c : Call}
    (hk : l.calls[k]? = some c) (he : (c.id, k) ∈ l.table) : l.Pending k c := by
  have hsound := h.sound k c hk
  obtain ⟨hent, hempty⟩ := hsound.listed_iff.mp (by simpa [slot] using he)
  have hgoing : c.isOver = false := by
    by_contra hover
    have hent : c.stage.isEntered = true := hent
    simp [Call.isEntered_of_isOver (by simpa using hover)] at hent
  obtain ⟨hhand, hmail⟩ := Slot.letter_eq_empty hempty
  constructor
  · exact (hsound.since hgoing).trans hent
  · exact hgoing
  · intro response
    constructor
    · intro hr
      have hhand : l.inHand? k = none := hhand
      simp [inHand?_eq_some_iff.mpr hr] at hhand
    · intro hm
      have hmail : c.mailbox = .empty := hmail
      simp [hm] at hmail

theorem call_of_key {l : Link} (h : l.Tidy) {id : UInt64} (hid : id ∈ l.table.map Prod.fst) :
    ∃ k c, l.calls[k]? = some c ∧ c.id = id ∧ (c.id, k) ∈ l.table := by
  obtain ⟨⟨id, k⟩, he, rfl⟩ := List.mem_map.mp hid
  obtain ⟨c, hk, rfl, -⟩ := h.coherent.entries _ he
  exact ⟨k, c, hk, rfl, he⟩

theorem run_kept (events : List LinkEvent) (k : Nat) (c : Call)
    (hlen : (({} : Link).run events).calls.length < UInt64.size)
    (hk : (({} : Link).run events).calls[k]? = some c) (hreg : c.since.isSome = true)
    (hgoing : c.isOver = false) :
    (c.id, k) ∈ (({} : Link).run events).table ∨
      (∃ response, (({} : Link).run events).reader = .handing k response) ∨
      (∃ response, c.mailbox = .answered response) ∨
      (c.mailbox = .cut ∧ (({} : Link).run events).shutDown = true) := by
  have h := run_tidy fresh_tidy events
  have hent := entered_of_since h hk hreg hgoing
  rcases letter_cases (({} : Link).run events) k c with ⟨response, hr, -⟩ | ⟨-, hletter⟩
  · exact .inr (.inl ⟨response, hr⟩)
  · cases hm : c.mailbox with
    | empty => exact .inl (listed_of_empty h hk hent (hletter.trans hm))
    | answered response => exact .inr (.inr (.inl ⟨response, rfl⟩))
    | cut => exact .inr (.inr (.inr ⟨rfl, run_cut events k c hlen hk hent (hletter.trans hm)⟩))

/-- At any moment of a link with fewer than 2^64 calls, the table is exact. -/
theorem run_tableExact (events : List LinkEvent)
    (hlen : (({} : Link).run events).calls.length < UInt64.size) :
    (({} : Link).run events).TableExact := by
  have h := run_tidy fresh_tidy events
  have hkept := run_kept events
  generalize ({} : Link).run events = l at hlen h hkept
  have hids : ∀ e ∈ l.table, ∃ c, l.calls[e.2]? = some c ∧ c.id = e.1 := fun e he => by
    obtain ⟨c, hc, hid, -⟩ := h.coherent.entries e he
    exact ⟨c, hc, hid⟩
  constructor
  case keys =>
    intro hopen id
    constructor
    · intro hid
      obtain ⟨k, c, hk, rfl, he⟩ := call_of_key h hid
      exact ⟨k, c, hk, rfl, pending_of_listed h hk he⟩
    · rintro ⟨k, c, hk, rfl, hpending⟩
      rcases hkept k c hlen hk hpending.registered hpending.going with
        he | ⟨response, hr⟩ | ⟨response, hm⟩ | ⟨-, hshut⟩
      · exact List.mem_map.mpr ⟨_, he, rfl⟩
      · exact absurd hr (hpending.unanswered response).1
      · exact absurd hm (hpending.unanswered response).2
      · simp [hopen] at hshut
  case distinct => exact h.coherent.keys
  case below =>
    intro e he
    obtain ⟨c, hk, hid⟩ := hids e he
    have hlt := (List.getElem?_eq_some_iff.mp hk).1
    rw [← hid, h.numbered.ids _ c hk, h.numbered.next, UInt64.lt_iff_toNat_lt,
      UInt64.toNat_ofNat_of_lt' (Nat.lt_trans hlt hlen), UInt64.toNat_ofNat_of_lt' hlen]
    exact hlt
  case owner =>
    intro e he k c hk
    obtain ⟨c', hk', hid'⟩ := hids e he
    constructor
    · intro hid
      exact h.numbered.number_eq hlen hk hk' (hid.trans hid'.symm)
    · rintro rfl
      obtain rfl : c' = c := Option.some.inj (hk'.symm.trans hk)
      exact hid'
  case emptied => exact h.coherent.shut
  case kept =>
    intro k c
    exact hkept k c hlen
  case gone =>
    intro c hc hover hid
    obtain ⟨k, c', hk', hid', he'⟩ := call_of_key h hid
    obtain ⟨j, hj⟩ := List.mem_iff_getElem?.mp hc
    obtain rfl := h.numbered.number_eq hlen hj hk' hid'.symm
    obtain rfl : c' = c := Option.some.inj (hk'.symm.trans hj)
    simp [(pending_of_listed h hk' he').going] at hover

def oneOfTwoAbandoned : List LinkEvent :=
  [.start "new_game" (.value .null) .boolean, .start "new_game" (.value .null) .boolean,
    .call 0 .register, .call 1 .register, .call 0 .queue, .call 0 .abandon, .call 0 .leave]

theorem tableExact_of_abandoned :
    (({} : Link).run oneOfTwoAbandoned).table = [(1, 1)] ∧
      (({} : Link).run oneOfTwoAbandoned).TableExact :=
  ⟨rfl, run_tableExact oneOfTwoAbandoned (by decide)⟩

end Link

end GameRelay.Outbound
