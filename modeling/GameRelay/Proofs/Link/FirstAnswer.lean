import GameRelay.Proofs.Link.Move

/-!
# The first answer

What the table has heard decides a call: the first line that answers its id, unless
the table was shut down before.
-/

set_option autoImplicit false

namespace GameRelay.Outbound

open GameRelay.Frame

/-- What decides a call of that id: the first line that answers it, or the shutdown
where that comes first. -/
def firstAnswer (id : UInt64) : List Heard → Mailbox
  | [] => .empty
  | .shutDown :: _ => .cut
  | .line text :: rest =>
    match answer? id text with
    | some response => .answered response
    | none => firstAnswer id rest

def Mailbox.outcome? (want : Want) : Mailbox → Option Outcome
  | .empty => none
  | .answered response => some (response.outcome want)
  | .cut => some (.error .disconnected)

theorem firstAnswer_append {id : UInt64} {log : List Heard} (more : List Heard)
    (h : firstAnswer id log ≠ .empty) : firstAnswer id (log ++ more) = firstAnswer id log := by
  induction log with
  | nil => exact absurd rfl h
  | cons what rest ih =>
    cases what with
    | shutDown => rfl
    | line text =>
      rw [List.cons_append, firstAnswer, firstAnswer]
      rw [firstAnswer] at h
      cases ha : answer? id text with
      | some response => rfl
      | none => exact ih (by simpa [ha] using h)

theorem firstAnswer_concat {id : UInt64} {log : List Heard} (what : Heard)
    (h : firstAnswer id log = .empty) :
    firstAnswer id (log ++ [what]) = firstAnswer id [what] := by
  induction log with
  | nil => rfl
  | cons head rest ih =>
    cases head with
    | shutDown => simp [firstAnswer] at h
    | line text =>
      rw [List.cons_append, firstAnswer]
      rw [firstAnswer] at h
      cases ha : answer? id text with
      | some response => simp [ha] at h
      | none => exact ih (by simpa [ha] using h)

/-- The line that decides a call, among those that do not. -/
theorem firstAnswer_eq_answered_iff {id : UInt64} {log : List Heard} {response : Response} :
    firstAnswer id log = .answered response ↔
      ∃ before text after, log = before ++ .line text :: after ∧
        answer? id text = some response ∧
        ∀ what ∈ before, ∃ other, what = .line other ∧ answer? id other = none := by
  induction log with
  | nil => simp [firstAnswer]
  | cons head rest ih =>
    cases head with
    | shutDown =>
      simp only [firstAnswer, reduceCtorEq, false_iff]
      rintro ⟨before, text, after, hlog, -, hbefore⟩
      cases before with
      | nil => simp at hlog
      | cons what before =>
        obtain ⟨other, rfl, -⟩ := hbefore what List.mem_cons_self
        simp at hlog
    | line text =>
      rw [firstAnswer]
      cases ha : answer? id text with
      | some r =>
        constructor
        · intro h
          rw [Mailbox.answered.inj h] at ha
          exact ⟨[], text, rest, rfl, ha, by simp⟩
        · rintro ⟨before, first, after, hlog, hfirst, hbefore⟩
          cases before with
          | nil =>
            simp only [List.nil_append, List.cons.injEq, Heard.line.injEq] at hlog
            rw [hlog.1, hfirst] at ha
            exact congrArg Mailbox.answered (Option.some.inj ha).symm
          | cons what before =>
            obtain ⟨other, rfl, hother⟩ := hbefore what List.mem_cons_self
            simp only [List.cons_append, List.cons.injEq, Heard.line.injEq] at hlog
            rw [hlog.1, hother] at ha
            simp at ha
      | none =>
        rw [ih]
        constructor
        · rintro ⟨before, first, after, rfl, hfirst, hbefore⟩
          have hbefore' : ∀ what ∈ Heard.line text :: before,
              ∃ other, what = .line other ∧ answer? id other = none := by
            intro what hwhat
            rcases List.mem_cons.mp hwhat with rfl | hwhat
            · exact ⟨text, rfl, ha⟩
            · exact hbefore what hwhat
          exact ⟨.line text :: before, first, after, rfl, hfirst, hbefore'⟩
        · rintro ⟨before, first, after, hlog, hfirst, hbefore⟩
          cases before with
          | nil =>
            simp only [List.nil_append, List.cons.injEq, Heard.line.injEq] at hlog
            rw [hlog.1, hfirst] at ha
            simp at ha
          | cons what before =>
            simp only [List.cons_append, List.cons.injEq] at hlog
            exact ⟨before, first, after, hlog.2, hfirst, fun w hw =>
              hbefore w (List.mem_cons_of_mem _ hw)⟩

theorem outcome?_eq_disconnected_iff {mailbox : Mailbox} (want : Want) :
    mailbox.outcome? want = some (.error .disconnected) ↔ mailbox = .cut := by
  cases mailbox with
  | empty => simp [Mailbox.outcome?]
  | cut => simp [Mailbox.outcome?]
  | answered response =>
    rcases response.outcome_cases want with ⟨v, h⟩ | ⟨message, h⟩ | ⟨what, h⟩ <;>
      simp [Mailbox.outcome?, h]

end GameRelay.Outbound
