import GameRelay.Proofs.Caller.Links

/-!
# The course of a task

What a task has done goes with where it is: it makes one attempt, and a second
one only after the first was refused and a dial succeeded. Every call of a link is
an attempt of one task. No step needs the lock for this.
-/

set_option autoImplicit false

namespace GameRelay.Outbound

open GameRelay.Frame GameRelay.Json

namespace Caller

def Made (c : Caller) (spec : CallSpec) (i k : Nat) : Prop :=
  ∃ call, c.call? i k = some call ∧ call.spec = spec

def Returned (c : Caller) (spec : CallSpec) (i k : Nat) (o : Outcome) : Prop :=
  ∃ call, c.call? i k = some call ∧ call.spec = spec ∧ call.stage = .ended (some o)

inductive Tried (c : Caller) (spec : CallSpec) : Budget → Nat → Nat → List Episode → Prop where
  | first (i k : Nat) : c.Made spec i k → Tried c spec .firstAttempt i k [.attempt i k]
  | again (i k i' k' : Nat) : c.Returned spec i k (.error .shutdown) → i ≠ i' →
      c.Made spec i' k' → Tried c spec .retried i' k' [.attempt i k, .dial true, .attempt i' k']

inductive Course (c : Caller) (ask : Ask) : Progress → List Episode → Prop where
  | waiting : Course c ask .waiting []
  | calling (spec : CallSpec) (budget : Budget) (i k : Nat) (history : List Episode) :
      ask.call? = some spec → c.Tried spec budget i k history →
      Course c ask (.calling budget i k) history
  | refused (spec : CallSpec) (i k : Nat) : ask.call? = some spec →
      c.Returned spec i k (.error .shutdown) →
      Course c ask (.dialing (some .retried)) [.attempt i k]
  | replacing : ask.call? = none → Course c ask (.dialing none) []
  | returned (spec : CallSpec) (budget : Budget) (i k : Nat) (history : List Episode)
      (o : Outcome) : ask.call? = some spec → c.Tried spec budget i k history →
      c.Returned spec i k o → Course c ask (.done (.outcome o)) history
  | lost (spec : CallSpec) (i k : Nat) : ask.call? = some spec →
      c.Returned spec i k (.error .shutdown) →
      Course c ask (.done (.outcome (.error .lostConnection))) [.attempt i k, .dial false]
  | replaced (succeeded : Bool) : ask.call? = none →
      Course c ask (.done (.connected succeeded)) [.dial succeeded]
  | leaving (spec : CallSpec) (budget : Budget) (i k : Nat) (history : List Episode) :
      ask.call? = some spec → c.Tried spec budget i k history →
      Course c ask (.leaving i k) history
  | abandoned : Course c ask .abandoned []
  | abandonedDial (spec : CallSpec) (i k : Nat) : ask.call? = some spec →
      c.Returned spec i k (.error .shutdown) → Course c ask .abandoned [.attempt i k]
  | abandonedCall (spec : CallSpec) (budget : Budget) (i k : Nat) (history : List Episode) :
      ask.call? = some spec → c.Tried spec budget i k history → Course c ask .abandoned history

/-! ## A course lasts -/

section
variable {c c' : Caller} {spec : CallSpec} {i k : Nat}

theorem Made.later (h : c.Made spec i k) (hlater : c.Later c') : c'.Made spec i k := by
  obtain ⟨call, hcall, hspec⟩ := h
  obtain ⟨call', hcall', hspec', -⟩ := hlater i k call hcall
  exact ⟨call', hcall', hspec'.trans hspec⟩

theorem Returned.later {o : Outcome} (h : c.Returned spec i k o) (hlater : c.Later c') :
    c'.Returned spec i k o := by
  obtain ⟨call, hcall, hspec, hs⟩ := h
  obtain ⟨call', hcall', hspec', hended⟩ := hlater i k call hcall
  exact ⟨call', hcall', hspec'.trans hspec, hended _ hs⟩

theorem Returned.made {o : Outcome} (h : c.Returned spec i k o) : c.Made spec i k := by
  obtain ⟨call, hcall, hspec, -⟩ := h
  exact ⟨call, hcall, hspec⟩

theorem Tried.later {budget : Budget} {history : List Episode}
    (h : c.Tried spec budget i k history) (hlater : c.Later c') :
    c'.Tried spec budget i k history := by
  cases h with
  | first _ _ hmade => exact .first _ _ (hmade.later hlater)
  | again i₀ k₀ _ _ hrefused hne hmade =>
    exact .again i₀ k₀ _ _ (hrefused.later hlater) hne (hmade.later hlater)

theorem Tried.made {budget : Budget} {history : List Episode}
    (h : c.Tried spec budget i k history) : c.Made spec i k := by
  cases h with
  | first _ _ hmade => exact hmade
  | again _ _ _ _ _ _ hmade => exact hmade

theorem Tried.mem {budget : Budget} {history : List Episode}
    (h : c.Tried spec budget i k history) : .attempt i k ∈ history := by
  cases h <;> simp

end

theorem Course.later {c c' : Caller} {ask : Ask} {progress : Progress} {history : List Episode}
    (h : c.Course ask progress history) (hlater : c.Later c') :
    c'.Course ask progress history := by
  cases h with
  | waiting => exact .waiting
  | calling spec budget i k _ hspec htried =>
    exact .calling spec _ _ _ _ hspec (htried.later hlater)
  | refused spec i k hspec hrefused => exact .refused spec i k hspec (hrefused.later hlater)
  | replacing hspec => exact .replacing hspec
  | returned spec budget i k _ o hspec htried hreturned =>
    exact .returned spec budget i k _ o hspec (htried.later hlater) (hreturned.later hlater)
  | lost spec i k hspec hrefused => exact .lost spec i k hspec (hrefused.later hlater)
  | replaced succeeded hspec => exact .replaced succeeded hspec
  | leaving spec budget i k _ hspec htried =>
    exact .leaving spec budget _ _ _ hspec (htried.later hlater)
  | abandoned => exact .abandoned
  | abandonedDial spec i k hspec hrefused =>
    exact .abandonedDial spec i k hspec (hrefused.later hlater)
  | abandonedCall spec budget i k _ hspec htried =>
    exact .abandonedCall spec budget i k _ hspec (htried.later hlater)

theorem made_of_tried {c : Caller} {spec : CallSpec} {budget : Budget} {i k j n : Nat}
    {history : List Episode} (h : c.Tried spec budget i k history)
    (hmem : .attempt j n ∈ history) : c.Made spec j n := by
  cases h with
  | first _ _ hmade =>
    obtain ⟨rfl, rfl⟩ : j = i ∧ n = k := by simpa using hmem
    exact hmade
  | again i₀ k₀ _ _ hrefused _ hmade =>
    obtain ⟨rfl, rfl⟩ | ⟨rfl, rfl⟩ : (j = i₀ ∧ n = k₀) ∨ (j = i ∧ n = k) := by simpa using hmem
    · exact hrefused.made
    · exact hmade

/-- What a task has attempted is a call of a link, for what the task is for. -/
theorem made_of_course {c : Caller} {ask : Ask} {progress : Progress} {history : List Episode}
    (h : c.Course ask progress history) {j n : Nat} (hmem : .attempt j n ∈ history) :
    ∃ spec, ask.call? = some spec ∧ c.Made spec j n := by
  cases h with
  | waiting | replacing | abandoned => simp at hmem
  | replaced succeeded => simp at hmem
  | calling spec budget i k _ hspec htried => exact ⟨spec, hspec, made_of_tried htried hmem⟩
  | returned spec budget i k _ o hspec htried => exact ⟨spec, hspec, made_of_tried htried hmem⟩
  | leaving spec budget i k _ hspec htried => exact ⟨spec, hspec, made_of_tried htried hmem⟩
  | abandonedCall spec budget i k _ hspec htried => exact ⟨spec, hspec, made_of_tried htried hmem⟩
  | refused spec i k hspec hrefused | abandonedDial spec i k hspec hrefused =>
    exact ⟨spec, hspec, made_of_tried (.first i k hrefused.made) hmem⟩
  | lost spec i k hspec hrefused =>
    exact ⟨spec, hspec, made_of_tried (.first i k hrefused.made) (by simpa using hmem)⟩

end Caller

end GameRelay.Outbound
