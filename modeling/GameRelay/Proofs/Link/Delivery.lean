import GameRelay.Proofs.Link.FirstAnswer
import GameRelay.Proofs.Link.Table

/-!
# What a call is handed, and what it returns

What the table has heard since a call entered it decides the call. A call that
queued its line and was not given up returns what that makes.
-/

set_option autoImplicit false

namespace GameRelay.Outbound

open GameRelay.Frame

/-! ## The queued lines of a call -/

def Outcome.lines? : Outcome → Option Nat
  | .ok _ => some 1
  | .error (.remote _) => some 1
  | .error (.decode _) => some 1
  | .error .disconnected => some 1
  | .error .shutdown => some 0
  | .error .lostConnection => some 0
  | .error (.encode _) => some 0
  | .error (.connect ..) => none
  | .error (.connectTimeout ..) => none
  | .error (.bind ..) => none

def Stage.lines? : Stage → Option Nat
  | .numbered | .registered => some 0
  | .waiting | .leaving none | .ended none => some 1
  | .leaving (some outcome) | .ended (some outcome) => outcome.lines?

theorem lines?_le_one {stage : Stage} {n : Nat} (h : stage.lines? = some n) : n ≤ 1 := by
  revert h
  fun_cases Stage.lines? stage with
  | case6 outcome | case7 outcome =>
    fun_cases Outcome.lines? outcome <;> simp <;> omega
  | _ => simp; omega

theorem outcome_lines (response : Response) (want : Want) :
    Outcome.lines? (response.outcome want) = some 1 := by
  rcases response.outcome_cases want with ⟨v, h⟩ | ⟨message, h⟩ | ⟨what, h⟩ <;>
    simp [h, Outcome.lines?]

structure Slot.Counted (l : Link) (s : Slot) : Prop where
  line : s.call.stage = .numbered ∨ s.call.since.isSome = true →
    s.call.argument.callLine? s.call.method s.call.id = some s.call.line
  lines : s.call.stage.lines? = some s.lines
  registered : s.lines ≠ 0 → s.call.since.isSome = true
  since_le : ∀ n, s.call.since = some n → n ≤ l.heard.length

/-! ## What one step keeps -/

def Slot.log (l : Link) (s : Slot) (n : Nat) : Mailbox := firstAnswer s.call.id (l.heard.drop n)

def Stage.outcome? : Stage → Option Outcome
  | .leaving outcome | .ended outcome => outcome
  | _ => none

structure Slot.Delivered (l : Link) (s : Slot) : Prop where
  letter : ∀ n, s.call.since = some n → s.call.stage.isEntered = true → s.letter = s.log l n
  outcome : ∀ n o, s.call.since = some n → s.call.stage.outcome? = some o → s.lines ≠ 0 →
    (s.log l n).outcome? s.call.want = some o

namespace Slot

/-- What has decided a call keeps deciding it. -/
theorem log_concat {l l' : Link} {s : Slot} {n : Nat} (what : Heard)
    (hheard : l'.heard = l.heard ++ [what]) (hn : n ≤ l.heard.length)
    (h : s.log l n ≠ .empty) : s.log l' n = s.log l n := by
  unfold log at *
  rw [hheard, List.drop_append_of_le_length hn]
  exact firstAnswer_append _ h

theorem log_of_empty {l l' : Link} {s : Slot} {n : Nat} (what : Heard)
    (hheard : l'.heard = l.heard ++ [what]) (hn : n ≤ l.heard.length)
    (h : s.log l n = .empty) : s.log l' n = firstAnswer s.call.id [what] := by
  unfold log at *
  rw [hheard, List.drop_append_of_le_length hn]
  exact firstAnswer_concat _ h

theorem log_same {l l' : Link} {s : Slot} {n : Nat} (hheard : l'.heard = l.heard) :
    s.log l' n = s.log l n := by
  unfold log
  rw [hheard]

theorem heard_of_change {l l' : Link} {s s' : Slot} (hchange : Change l l' s s') :
    l'.heard = l.heard ∨ ∃ what, l'.heard = l.heard ++ [what] := by
  cases hchange with
  | overheard _ hheard | answered _ _ hheard | cutOff hheard | passedBy hheard =>
    exact .inr ⟨_, hheard⟩
  | same hheard | handed _ hheard | refused hheard | registered hheard | queued hheard
  | notQueued hheard | collected _ hheard | disconnected hheard | abandoned hheard
  | left _ hheard | pushedOut _ _ hheard | dropped hheard => exact .inl hheard

theorem line_of_change {l l' : Link} {s s' : Slot} (h : s.Counted l)
    (hchange : Change l l' s s') :
    s'.call.stage = .numbered ∨ s'.call.since.isSome = true →
      s'.call.argument.callLine? s'.call.method s'.call.id = some s'.call.line := by
  intro hs'
  have hs : s.call.stage = .numbered ∨ s.call.since.isSome = true := by
    cases hchange <;> simp_all
  obtain ⟨hid, hmethod, hargument, -, hline⟩ := Link.change_static hchange
  rw [hid, hmethod, hargument, hline]
  exact h.line hs

theorem counted_of_change {l l' : Link} {s s' : Slot} (hsound : s.Sound) (h : s.Counted l)
    (hchange : Change l l' s s') : s'.Counted l' := by
  have hline := line_of_change h hchange
  obtain ⟨-, hlines, hregistered, hsince⟩ := h
  have hgrow : ∀ n, n ≤ l.heard.length → n ≤ l'.heard.length := fun n hn => by
    rcases heard_of_change hchange with hheard | ⟨what, hheard⟩
    · rwa [hheard]
    · rw [hheard, List.length_append]
      omega
  have hkept : ∀ n, s.call.since = some n → n ≤ l'.heard.length := fun n hn =>
    hgrow n (hsince n hn)
  cases hchange with
  | same | overheard | answered | cutOff | passedBy | handed | pushedOut | dropped =>
    exact ⟨hline, hlines, hregistered, hkept⟩
  | refused _ _ _ hs =>
    exact ⟨hline, by simpa [hs, Stage.lines?, Outcome.lines?] using hlines, hregistered, hkept⟩
  | registered hheard _ _ hs =>
    have hle : ∀ n, some l.heard.length = some n → n ≤ l'.heard.length := by
      intro n hn
      obtain rfl : l.heard.length = n := Option.some.inj hn
      exact Nat.le_of_eq (congrArg List.length hheard.symm)
    exact ⟨hline, by simpa [hs, Stage.lines?] using hlines, fun _ => rfl, hle⟩
  | queued _ _ hs =>
    have hzero : s.lines = 0 := by simpa [hs, Stage.lines?] using hlines.symm
    have hsome : s.call.since.isSome = true :=
      (hsound.since (by simp [Call.isOver, hs])).trans (by simp [hs, Stage.isEntered])
    exact ⟨hline, by simp [hzero, Stage.lines?], fun _ => hsome, hkept⟩
  | notQueued _ _ _ hs =>
    exact ⟨hline, by simpa [hs, Stage.lines?, Outcome.lines?] using hlines, hregistered, hkept⟩
  | collected response _ _ hs hm =>
    exact ⟨hline, by simpa [hs, Stage.lines?, outcome_lines] using hlines, hregistered, hkept⟩
  | disconnected _ _ hs hm =>
    exact ⟨hline, by simpa [hs, Stage.lines?, Outcome.lines?] using hlines, hregistered, hkept⟩
  | abandoned _ _ hs =>
    exact ⟨hline, by simpa [hs, Stage.lines?] using hlines, hregistered, hkept⟩
  | left outcome _ _ hs =>
    have hended : (Stage.ended outcome).lines? = some s.lines := by
      cases outcome <;> simpa [hs, Stage.lines?] using hlines
    exact ⟨hline, hended, hregistered, hkept⟩

/-- A call that was refused has queued nothing. -/
theorem lines_eq_zero {l : Link} {s : Slot} (h : s.Counted l)
    (hs : s.call.stage = .numbered ∨ s.call.stage = .registered) : s.lines = 0 := by
  rcases hs with hs | hs <;> simpa [hs, Stage.lines?] using h.lines.symm

/-- The mailbox of a call that has anything in it is all that the call was handed. -/
theorem mailbox_eq_letter {s : Slot} (h : s.Sound) (hent : s.call.stage.isEntered = true)
    (hm : s.call.mailbox ≠ .empty) : s.letter = s.call.mailbox := by
  have hhand : s.inHand = none := by
    by_contra hhand
    exact hm (h.hand hent hhand)
  simp [letter, hhand, Mailbox.receive]

/-- No other call pushes it out of the table, if none has its id. -/
theorem listed_of_unique {l l' : Link} {s s' : Slot} (hchange : Change l l' s s')
    (hown : ∀ j other, l.calls[j]? = some other → other.id = s.call.id → j = s.number)
    (hl : s.listed = true) (hheard : l'.heard = l.heard)
    (hent : s'.call.stage.isEntered = true) : s'.listed = true := by
  cases hchange with
  | same | overheard | passedBy | handed | queued | notQueued | collected | disconnected
  | abandoned | dropped => exact hl
  | answered _ _ hmore | cutOff hmore => simp [hheard] at hmore
  | registered => rfl
  | refused | left => simp [Stage.isEntered] at hent
  | pushedOut j other _ _ hne hj hid => exact absurd (hown j other hj hid) hne

theorem letter_of_change {l l' : Link} {s s' : Slot} (hsound : s.Sound) (hcounted : s.Counted l)
    (h : s.Delivered l) (hchange : Change l l' s s')
    (hstays : s.listed = true → l'.heard = l.heard → s'.call.stage.isEntered = true →
      s'.listed = true) :
    ∀ n, s'.call.since = some n → s'.call.stage.isEntered = true → s'.letter = s'.log l' n := by
  intro n hn hent
  have hempty : s.listed = true → s.call.stage.isEntered = true ∧ s.letter = .empty :=
    hsound.listed_iff.mp
  cases hchange with
  | same hheard => exact (h.letter n hn hent).trans (log_same hheard).symm
  | overheard text hheard _ hnone =>
    have hle := hcounted.since_le n hn
    have hletter := h.letter n hn hent
    by_cases he : s.letter = .empty
    · have hnone' := hnone (hsound.listed_iff.mpr ⟨hent, he⟩)
      rw [log_of_empty _ hheard hle (hletter ▸ he), he]
      simp [firstAnswer, hnone']
    · rw [log_concat _ hheard hle (hletter ▸ he), hletter]
  | answered text response hheard _ hanswer hl =>
    have hle := hcounted.since_le n hn
    obtain ⟨hent, he⟩ := hempty hl
    have hletter := h.letter n hn hent
    have hlog : s.log l' n = .answered response := by
      rw [log_of_empty _ hheard hle (hletter ▸ he)]
      simp [firstAnswer, hanswer]
    exact hlog.symm
  | cutOff hheard _ hl =>
    have hle := hcounted.since_le n hn
    obtain ⟨hent, he⟩ := hempty hl
    have hletter := h.letter n hn hent
    have hlog : s.log l' n = .cut := log_of_empty _ hheard hle (hletter ▸ he)
    obtain ⟨hhand, hm⟩ := letter_eq_empty he
    have hcut : s.call.mailbox.cutOff.receive s.inHand = .cut := by
      simp [hhand, hm, Mailbox.receive, Mailbox.cutOff]
    exact hcut.trans hlog.symm
  | passedBy hheard _ hl =>
    have hle := hcounted.since_le n hn
    have hletter := h.letter n hn hent
    have he : s.letter ≠ .empty := fun he => by
      simp [hsound.listed_iff.mpr ⟨hent, he⟩] at hl
    rw [log_concat _ hheard hle (hletter ▸ he), hletter]
  | handed response hheard _ hhand =>
    have hletter : s.letter = .answered response := by simp [letter, hhand, Mailbox.receive]
    exact hletter.symm.trans ((h.letter n hn hent).trans (log_same hheard).symm)
  | registered hheard _ _ hs =>
    obtain rfl : l.heard.length = n := by simpa using hn
    have hlog : firstAnswer s.call.id (l'.heard.drop l.heard.length) = .empty := by
      rw [hheard, List.drop_length]
      rfl
    exact (hsound.numbered hs).trans hlog.symm
  | queued hheard _ hs | notQueued hheard _ _ hs | collected _ hheard _ hs
  | disconnected hheard _ hs | abandoned hheard _ hs =>
    exact (h.letter n hn (by simp [hs, Stage.isEntered])).trans (log_same hheard).symm
  | refused | left => simp [Stage.isEntered] at hent
  | pushedOut _ _ hheard _ _ _ _ hl =>
    have hout := hstays hl hheard hent
    simp at hout
  | dropped _ _ hover =>
    have hent : s.call.stage.isEntered = true := hent
    simp [Call.isEntered_of_isOver hover] at hent

theorem outcome_of_change {l l' : Link} {s s' : Slot} (hsound : s.Sound)
    (hcounted : s.Counted l) (h : s.Delivered l) (hchange : Change l l' s s') :
    ∀ n o, s'.call.since = some n → s'.call.stage.outcome? = some o → s'.lines ≠ 0 →
      (s'.log l' n).outcome? s'.call.want = some o := by
  intro n o hn ho hlines
  have hstays : ∀ what, l'.heard = l.heard ++ [what] → s.call.since = some n →
      s.call.stage.outcome? = some o → s.lines ≠ 0 →
      (s.log l' n).outcome? s.call.want = some o := by
    intro what hheard hn ho hlines
    have hlog := h.outcome n o hn ho hlines
    have hdecided : s.log l n ≠ .empty := fun he => by simp [he, Mailbox.outcome?] at hlog
    rwa [log_concat _ hheard (hcounted.since_le n hn) hdecided]
  cases hchange with
  | same hheard | handed _ hheard | pushedOut _ _ hheard | dropped hheard =>
    exact (log_same hheard) ▸ h.outcome n o hn ho hlines
  | overheard _ hheard | answered _ _ hheard | cutOff hheard | passedBy hheard =>
    exact hstays _ hheard hn ho hlines
  | left outcome hheard _ hs =>
    have hlog := h.outcome n o hn (by simpa [hs, Stage.outcome?] using ho) hlines
    exact (log_same hheard) ▸ hlog
  | collected response hheard _ hs hm =>
    have hent : s.call.stage.isEntered = true := by simp [hs, Stage.isEntered]
    have hletter := mailbox_eq_letter hsound hent (by simp [hm])
    have hlog : s.log l' n = .answered response :=
      (log_same hheard).trans ((h.letter n hn hent).symm.trans (hletter.trans hm))
    exact (congrArg _ hlog).trans ho
  | disconnected hheard _ hs hm =>
    have hent : s.call.stage.isEntered = true := by simp [hs, Stage.isEntered]
    have hletter := mailbox_eq_letter hsound hent (by simp [hm])
    have hlog : s.log l' n = .cut :=
      (log_same hheard).trans ((h.letter n hn hent).symm.trans (hletter.trans hm))
    exact (congrArg _ hlog).trans ho
  | refused _ _ _ hs => exact absurd (lines_eq_zero hcounted (.inl hs)) hlines
  | notQueued _ _ _ hs => exact absurd (lines_eq_zero hcounted (.inr hs)) hlines
  | registered | queued | abandoned => simp [Stage.outcome?] at ho

end Slot

namespace Link

theorem counted_of_started {l l' : Link} {c : Call} (h : Started l l' c) :
    Slot.Counted l' ⟨l.calls.length, c, false, none, 0⟩ := by
  constructor
  case line =>
    intro hs
    exact h.line (hs.resolve_right (by simp [h.since]))
  case lines =>
    rcases h.stage with hs | hs <;>
      simp [hs, Stage.lines?, Outcome.lines?, RelayError.unencodable]
  case registered =>
    intro hlines
    exact absurd rfl hlines
  case since_le =>
    intro n hn
    simp [h.since] at hn

theorem delivered_of_started {l l' : Link} {c : Call} (h : Started l l' c) :
    Slot.Delivered l' ⟨l.calls.length, c, false, none, 0⟩ := by
  constructor
  · intro n hn
    simp [h.since] at hn
  · intro n o hn
    simp [h.since] at hn

theorem run_counted (events : List LinkEvent) (k : Nat) (c : Call)
    (hk : (({} : Link).run events).calls[k]? = some c) :
    ((({} : Link).run events).slot k c).Counted (({} : Link).run events) := by
  apply run_slots (P := fun l s => s.Counted l) _ _ events fresh_tidy _ k c hk
  · intro l l' c hstarted
    exact counted_of_started hstarted
  · intro l l' k c s' h _ hk hchange ih
    exact Slot.counted_of_change (h.sound k c hk) ih hchange
  · intro k c hk
    simp at hk

theorem run_delivered (events : List LinkEvent) (k : Nat) (c : Call)
    (hlen : (({} : Link).run events).calls.length < UInt64.size)
    (hk : (({} : Link).run events).calls[k]? = some c) :
    ((({} : Link).run events).slot k c).Delivered (({} : Link).run events) := by
  refine (run_slots (P := fun l s => s.Counted l ∧ (l.calls.length < UInt64.size → s.Delivered l))
    ?_ ?_ events fresh_tidy ?_ k c hk).2 hlen
  · intro l l' c hstarted
    exact ⟨counted_of_started hstarted, fun _ => delivered_of_started hstarted⟩
  · rintro l l' k c s' h hle hk hchange ⟨hcounted, ih⟩
    have hsound := h.sound k c hk
    constructor
    · exact Slot.counted_of_change hsound hcounted hchange
    · intro hlen
      have hlen' : l.calls.length < UInt64.size := by omega
      have hown : ∀ j other, l.calls[j]? = some other → other.id = c.id → j = k :=
        fun j other hj hid => h.numbered.number_eq hlen' hj hk hid
      exact ⟨Slot.letter_of_change hsound hcounted (ih hlen') hchange
          (Slot.listed_of_unique hchange hown),
        Slot.outcome_of_change hsound hcounted (ih hlen') hchange⟩
  · intro k c hk
    simp at hk

end Link

end GameRelay.Outbound
