import GameRelay.Proofs.Caller.Lock
import GameRelay.Proofs.Link.Shutdown

/-!
# One invocation, one reconnect at most

A call through a caller is one attempt, or a refused attempt and a failed dial,
or a refused attempt, a dial and an attempt on the link that the dial installed.
It returns what its last attempt came to, or that the connection is lost where
the dial failed.
-/

set_option autoImplicit false

namespace GameRelay.Outbound

open GameRelay.Frame GameRelay.Json

namespace Caller

inductive Invocation (c : Caller) (spec : CallSpec) : List Episode → Outcome → Prop where
  | kept (i k : Nat) (o : Outcome) : c.Returned spec i k o → o ≠ .error .shutdown →
      Invocation c spec [.attempt i k] o
  | lost (i k : Nat) : c.Returned spec i k (.error .shutdown) →
      Invocation c spec [.attempt i k, .dial false] (.error .lostConnection)
  | again (i k : Nat) (o : Outcome) : c.Returned spec i k (.error .shutdown) →
      c.Returned spec (i + 1) 0 o →
      Invocation c spec [.attempt i k, .dial true, .attempt (i + 1) 0] o

end Caller

/-! ## What an attempt comes to -/

theorem Link.not_lost (events : List LinkEvent) (k : Nat) (c : Call)
    (hk : (({} : Link).run events).calls[k]? = some c) :
    c.stage.outcome? ≠ some (.error .lostConnection) := by
  apply Link.run_slots (P := fun _ s => s.call.stage.outcome? ≠ some (.error .lostConnection))
    _ _ events Link.fresh_tidy _ k c hk
  · intro l l' c hstarted
    rcases hstarted.stage with hs | hs <;>
      simp [hs, Stage.outcome?, RelayError.unencodable]
  · intro l l' k c s' _ _ _ hchange ih
    cases hchange with
    | same | overheard | answered | cutOff | passedBy | handed | pushedOut | dropped => exact ih
    | refused | registered | queued | notQueued | disconnected | abandoned =>
      simp [Stage.outcome?]
    | collected response =>
      simpa [Stage.outcome?] using Link.response_outcome_ne.2
    | left outcome _ _ hs => simpa [hs, Stage.outcome?] using ih
  · intro k c hk
    simp at hk

namespace Caller

section
variable {c : Caller} {spec : CallSpec} {i k : Nat} {o : Outcome}

theorem Returned.ne_lost (h : c.Returned spec i k o) (hlinked : c.Linked) :
    o ≠ .error .lostConnection := by
  rintro rfl
  obtain ⟨call, hcall, -, hs⟩ := h
  obtain ⟨l, hl, hk⟩ := call?_eq_some_iff.mp hcall
  obtain ⟨events, rfl⟩ := hlinked.reached l (List.mem_of_getElem? hl)
  exact Link.not_lost events k call hk (congrArg Stage.outcome? hs)

/-- A link that refuses is shut down. -/
theorem Returned.shut (h : c.Returned spec i k (.error .shutdown)) (hlinked : c.Linked) :
    ∃ l, c.links[i]? = some l ∧ l.shutDown = true := by
  obtain ⟨call, hcall, -, hs⟩ := h
  obtain ⟨l, hl, hk⟩ := call?_eq_some_iff.mp hcall
  obtain ⟨events, rfl⟩ := hlinked.reached l (List.mem_of_getElem? hl)
  exact ⟨_, hl, Link.shutDown_of_refused events (List.mem_of_getElem? hk)
    (congrArg Stage.outcome? hs)⟩

end

/-! ## The course of an invocation -/

section
variable {c : Caller} {t : Nat} {ask : Ask} {history : List Episode}

theorem invocation_of_done {spec : CallSpec} {verdict : Verdict} (hspec : ask.call? = some spec)
    (hcourse : c.Course ask (.done verdict) history) (hstand : c.Stand t (.done verdict) history) :
    ∃ o, verdict = .outcome o ∧ c.Invocation spec history o := by
  cases hcourse with
  | returned spec' budget i k _ o hspec' htried hreturned =>
    obtain rfl := Option.some.inj (hspec.symm.trans hspec')
    refine ⟨o, rfl, ?_⟩
    cases htried with
    | first =>
      cases hstand with
      | kept _ _ _ hne => exact .kept i k o hreturned hne
    | again j n _ _ hrefused =>
      cases hstand with
      | again => exact .again j n o hrefused hreturned
  | lost spec' i k hspec' hrefused =>
    obtain rfl := Option.some.inj (hspec.symm.trans hspec')
    exact ⟨_, rfl, .lost i k hrefused⟩
  | replaced succeeded hnone => simp [hnone] at hspec

theorem Invocation.lost_iff {spec : CallSpec} {o : Outcome} (h : c.Invocation spec history o)
    (hlinked : c.Linked) :
    o = .error .lostConnection ↔ ∃ i k, history = [.attempt i k, .dial false] := by
  cases h with
  | kept i k _ hreturned => simp [hreturned.ne_lost hlinked]
  | lost i k => simp
  | again i k _ _ hreturned => simp [hreturned.ne_lost hlinked]

/-- What a task has done, wherever it is. -/
theorem history_cases {progress : Progress} (h : c.Course ask progress history) :
    history = [] ∨ (∃ i k, history = [.attempt i k]) ∨ (∃ b, history = [.dial b]) ∨
      (∃ i k, history = [.attempt i k, .dial false]) ∨
      ∃ i k j n, history = [.attempt i k, .dial true, .attempt j n] := by
  have htried : ∀ {spec budget i k}, c.Tried spec budget i k history →
      (∃ i k, history = [.attempt i k]) ∨
        ∃ i k j n, history = [.attempt i k, .dial true, .attempt j n] := by
    intro spec budget i k h
    cases h with
    | first => exact .inl ⟨_, _, rfl⟩
    | again j n => exact .inr ⟨j, n, i, k, rfl⟩
  cases h with
  | waiting | replacing | abandoned => exact .inl rfl
  | calling _ _ _ _ _ _ h | returned _ _ _ _ _ _ _ h | leaving _ _ _ _ _ _ h
  | abandonedCall _ _ _ _ _ _ h =>
    rcases htried h with h | h
    · exact .inr (.inl h)
    · exact .inr (.inr (.inr (.inr h)))
  | refused _ i k | abandonedDial _ i k => exact .inr (.inl ⟨i, k, rfl⟩)
  | lost _ i k => exact .inr (.inr (.inr (.inl ⟨i, k, rfl⟩)))
  | replaced b => exact .inr (.inr (.inl ⟨b, rfl⟩))

end

structure Retries (c : Caller) : Prop where
  /-- One that has run to its end is one of the three. -/
  ends : ∀ task ∈ c.tasks, ∀ spec verdict, task.ask.call? = some spec →
    task.progress = .done verdict → ∃ o, verdict = .outcome o ∧ c.Invocation spec task.history o
  lost : ∀ task ∈ c.tasks, ∀ spec o, task.ask.call? = some spec →
    task.progress = .done (.outcome o) →
    (o = .error .lostConnection ↔ ∃ i k, task.history = [.attempt i k, .dial false])
  /-- While it dials, the installed link is shut down. -/
  dials : ∀ task ∈ c.tasks, ∀ budget, task.progress = .dialing (some budget) →
    ∃ l, c.links[c.installed]? = some l ∧ l.shutDown = true
  /-- Its attempts are on the link that is installed while it makes them. -/
  here : ∀ task ∈ c.tasks, ∀ budget i k, task.progress = .calling budget i k → i = c.installed
  bounded : ∀ task ∈ c.tasks, task.history.length ≤ 3

/-- At any moment of a caller, whatever its attempts and dials come to. -/
theorem run_retries (events : List CallerEvent) : (({} : Caller).run events).Retries := by
  have h := run_sane fresh_sane events
  have hplaced := run_placed events fresh_sane fresh_placed
  generalize ({} : Caller).run events = c at h hplaced
  constructor
  case ends =>
    intro task htask spec verdict hspec hdone
    obtain ⟨t, ht⟩ := List.mem_iff_getElem?.mp htask
    exact invocation_of_done hspec (hdone ▸ h.course t task ht) (hdone ▸ hplaced t task ht)
  case lost =>
    intro task htask spec o hspec hdone
    obtain ⟨t, ht⟩ := List.mem_iff_getElem?.mp htask
    obtain ⟨o', ho', hinvocation⟩ :=
      invocation_of_done hspec (hdone ▸ h.course t task ht) (hdone ▸ hplaced t task ht)
    obtain rfl := Verdict.outcome.inj ho'
    exact hinvocation.lost_iff h.linked
  case dials =>
    intro task htask budget hdials
    obtain ⟨t, ht⟩ := List.mem_iff_getElem?.mp htask
    have hcourse := h.course t task ht
    have hstand := hplaced t task ht
    obtain ⟨ask, progress, history⟩ := task
    obtain rfl : progress = .dialing (some budget) := hdials
    cases hstand with
    | refused k =>
      cases hcourse with
      | refused spec _ _ _ hrefused => exact hrefused.shut h.linked
  case here =>
    intro task htask budget i k hcalling
    obtain ⟨t, ht⟩ := List.mem_iff_getElem?.mp htask
    have hstand := hplaced t task ht
    obtain ⟨ask, progress, history⟩ := task
    obtain rfl : progress = .calling budget i k := hcalling
    cases hstand with
    | first | second => rfl
  case bounded =>
    intro task htask
    obtain ⟨t, ht⟩ := List.mem_iff_getElem?.mp htask
    rcases history_cases (h.course t task ht) with
      hh | ⟨i, k, hh⟩ | ⟨b, hh⟩ | ⟨i, k, hh⟩ | ⟨i, k, j, n, hh⟩ <;> simp [hh]

end Caller

end GameRelay.Outbound
