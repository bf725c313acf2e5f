import GameRelay.Outbound.Retry

/-!
# A budget over a history of failures

However many failures it is fed with, a fresh budget grants one reconnect: at the first
refusal. Every other failure is handed back as it came, before and after that, and what
has been spent stays spent.
-/

set_option autoImplicit false

namespace GameRelay.Outbound

namespace Budget

/-! ## One failure -/

theorem afterFailure_of_ne (budget : Budget) {error : RelayError} (h : error ≠ .shutdown) :
    budget.afterFailure error = (budget, .fail error) := by
  cases budget with
  | retried => rfl
  | firstAttempt =>
    cases error with
    | shutdown => exact absurd rfl h
    | _ => rfl

/-- The answer of a fresh budget to a failure, behind the failures `earlier`. -/
def answer (earlier : List RelayError) (error : RelayError) : Budget × RetryStep :=
  if .shutdown ∈ earlier then (.retried, .fail error) else afterFailure .firstAttempt error

section
variable {earlier : List RelayError} {error : RelayError}

theorem answer_reconnect_iff :
    (answer earlier error).2 = .reconnect ↔ error = .shutdown ∧ .shutdown ∉ earlier := by
  rw [answer]
  by_cases hspent : RelayError.shutdown ∈ earlier
  · simp [hspent]
  · by_cases herror : error = .shutdown
    · simp [hspent, herror, afterFailure]
    · simp [hspent, herror, afterFailure_of_ne _ herror]

theorem answer_fail_iff {found : RelayError} :
    (answer earlier found).2 = .fail error ↔
      found = error ∧ (error = .shutdown → .shutdown ∈ earlier) := by
  rw [answer]
  by_cases hspent : RelayError.shutdown ∈ earlier
  · simp [hspent]
  · by_cases hfound : found = .shutdown
    · subst hfound
      simp [hspent, afterFailure, eq_comm]
    · simp only [hspent, if_false, afterFailure_of_ne _ hfound, RetryStep.fail.injEq]
      constructor
      · rintro rfl
        exact ⟨rfl, fun h => absurd h hfound⟩
      · exact fun h => h.1

theorem answer_retried_iff :
    (answer earlier error).1 = .retried ↔ .shutdown ∈ earlier ++ [error] := by
  rw [answer, List.mem_append, List.mem_singleton]
  by_cases hspent : RelayError.shutdown ∈ earlier
  · simp [hspent]
  · by_cases herror : error = .shutdown
    · simp [herror, hspent, afterFailure]
    · simp [hspent, Ne.symm herror, afterFailure_of_ne _ herror]

end

/-! ## A whole history -/

theorem length_history (budget : Budget) (errors : List RelayError) :
    (budget.history errors).length = errors.length := by
  induction errors generalizing budget with
  | nil => rfl
  | cons error rest ih => exact congrArg (· + 1) (ih _)

theorem history_of_retried (errors : List RelayError) :
    history .retried errors = errors.map fun error => (.retried, .fail error) := by
  induction errors with
  | nil => rfl
  | cons error rest ih =>
    rw [List.map_cons, ← ih]
    rfl

/-- An answer depends on its own failure, and on whether there was a refusal before. -/
theorem getElem?_history (errors : List RelayError) (i : Nat) :
    (history .firstAttempt errors)[i]? = (errors[i]?).map (answer (errors.take i)) := by
  induction errors generalizing i with
  | nil => rfl
  | cons error rest ih =>
    cases i with
    | zero => rfl
    | succ i =>
      rw [history, List.getElem?_cons_succ, List.getElem?_cons_succ, List.take_succ_cons]
      by_cases herror : error = .shutdown
      · subst herror
        have hspent : answer (.shutdown :: rest.take i) = fun next => (.retried, .fail next) := by
          funext next
          simp [answer]
        rw [hspent, afterFailure, history_of_retried, List.getElem?_map]
      · have hlater : answer (error :: rest.take i) = answer (rest.take i) := by
          funext next
          simp [answer, Ne.symm herror]
        rw [afterFailure_of_ne _ herror, ih, hlater]

section
variable {errors : List RelayError} {i : Nat}

theorem history_reconnect_iff :
    ((history .firstAttempt errors)[i]?).map Prod.snd = some .reconnect ↔
      errors[i]? = some .shutdown ∧ .shutdown ∉ errors.take i := by
  rw [getElem?_history]
  cases errors[i]? with
  | none => simp
  | some error => simp [answer_reconnect_iff]

theorem history_fail_iff {error : RelayError} :
    ((history .firstAttempt errors)[i]?).map Prod.snd = some (.fail error) ↔
      errors[i]? = some error ∧ (error = .shutdown → .shutdown ∈ errors.take i) := by
  rw [getElem?_history]
  cases errors[i]? with
  | none => simp
  | some found => simp [answer_fail_iff]

theorem history_retried_iff :
    ((history .firstAttempt errors)[i]?).map Prod.fst = some .retried ↔
      i < errors.length ∧ .shutdown ∈ errors.take (i + 1) := by
  rw [getElem?_history, List.take_add_one]
  cases herror : errors[i]? with
  | none =>
    have hle := List.getElem?_eq_none_iff.mp herror
    simp [Nat.not_lt.mpr hle]
  | some error =>
    have hlt := (List.getElem?_eq_some_iff.mp herror).1
    simp only [Option.map_some, Option.some.injEq, Option.toList_some, answer_retried_iff, hlt,
      true_and]

end

structure ReconnectsOnce (errors : List RelayError) (answers : List (Budget × RetryStep)) :
    Prop where
  length_eq : answers.length = errors.length
  /-- The first refusal earns the reconnect, and no other failure does. -/
  reconnect_iff : ∀ i : Nat, (answers[i]?).map Prod.snd = some .reconnect ↔
    errors[i]? = some .shutdown ∧ .shutdown ∉ errors.take i
  /-- All the others are handed back, and none is handed back but itself. -/
  fail_iff : ∀ (i : Nat) (error : RelayError), (answers[i]?).map Prod.snd = some (.fail error) ↔
    errors[i]? = some error ∧ (error = .shutdown → .shutdown ∈ errors.take i)
  /-- The budget is spent from the first refusal on. -/
  retried_iff : ∀ i : Nat, (answers[i]?).map Prod.fst = some .retried ↔
    i < errors.length ∧ .shutdown ∈ errors.take (i + 1)
  lasting : ∀ i j : Nat, i ≤ j → j < errors.length →
    (answers[i]?).map Prod.fst = some .retried → (answers[j]?).map Prod.fst = some .retried

theorem history_reconnectsOnce (errors : List RelayError) :
    ReconnectsOnce errors (history .firstAttempt errors) where
  length_eq := length_history _ errors
  reconnect_iff _ := history_reconnect_iff
  fail_iff _ _ := history_fail_iff
  retried_iff _ := history_retried_iff
  lasting i j hij hj hi := by
    obtain ⟨-, hspent⟩ := history_retried_iff.mp hi
    exact history_retried_iff.mpr ⟨hj, List.take_subset_take_left errors (by omega) hspent⟩

example :
    (history .firstAttempt [.disconnected, .shutdown, .lostConnection, .shutdown]).map Prod.snd =
      [.fail .disconnected, .reconnect, .fail .lostConnection, .fail .shutdown] := by
  decide

end Budget

end GameRelay.Outbound
