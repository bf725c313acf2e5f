import GameRelay.Proofs.Host.Standing

/-!
# What a run of the host has sent

A call sends one line at most, whatever becomes of the links, so what was asked
for bounds what was sent.
-/

set_option autoImplicit false

namespace GameRelay.Host

open GameRelay.Frame GameRelay.Outbound GameRelay.Text

def Run.sent (r : Run) : List (List UInt8) := (r.caller.map Caller.sent).getD []

def createLine (args : Args) (game : String) (id : UInt64) : List UInt8 :=
  encode (Request.call Method.newGame (Identity.mk game args.password).toValue id).line

def removeLine (game : String) (id : UInt64) : List UInt8 :=
  encode (Request.call Method.removeGame (Identity.mk game "").toValue id).line

theorem createLine_ne_removeLine (args : Args) (game name : String) (first second : UInt64) :
    createLine args game first ≠ removeLine name second := by
  intro h
  have htext := congrArg decodeLine h
  rw [createLine, removeLine, decodeLine_encode, decodeLine_encode] at htext
  have hparse := congrArg Request.parse (Except.ok.inj htext)
  rw [Request.parse_game, Request.parse_game] at hparse
  have hmethod : Method.newGame = Method.removeGame :=
    congrArg Request.method (Except.ok.inj hparse)
  exact absurd hmethod (by decide)

section
variable {args : Args} {r r' : Run} {c : Caller} {event : RunEvent}

theorem sent_of_caller (h : r.caller = some c) : r.sent = c.sent := by
  rw [Run.sent, h]
  rfl

theorem sent_of_none (h : r.caller = none) : r.sent = [] := by
  rw [Run.sent, h]
  rfl

theorem Asking.line_of_create (h : Asking args c) {task : Task} (htask : task ∈ c.tasks)
    {game : String} (hask : task.ask = .create game args.password) :
    ∃ first, ((c.linesOf task).map c.lineAt).Sublist [createLine args game first] :=
  Caller.line_of_game h.guarded.sane htask (by rw [hask, Ask.call?])

theorem Asking.line_of_remove (h : Asking args c) {task : Task} (htask : task ∈ c.tasks)
    {game : String} (hask : task.ask = .remove game) :
    ∃ second, ((c.linesOf task).map c.lineAt).Sublist [removeLine game second] :=
  Caller.line_of_game h.guarded.sane htask (by rw [hask, Ask.call?, Identity.named])

/-- A task sends at most one line, and the first one asks for the game. -/
theorem Asking.sent_of_one (h : Asking args c) (hone : c.tasks.length ≤ 1) {game : String}
    (hgame : args.game = some game) : ∃ first, c.sent.Sublist [createLine args game first] := by
  have hasks := h.asks
  rw [h.inTurn.sent]
  cases htasks : c.tasks with
  | nil => exact ⟨0, List.nil_sublist _⟩
  | cons one rest =>
    obtain rfl : rest = [] := by simpa [htasks] using hone
    rw [htasks, asks_eq hgame] at hasks
    have hone : one.ask = .create game args.password := by simpa using hasks
    obtain ⟨first, hfirst⟩ := h.line_of_create (by simp [htasks]) hone
    exact ⟨first, by rwa [List.flatMap_singleton]⟩

theorem Asking.not_removed (h : Asking args c) (hone : c.tasks.length ≤ 1) {game : String}
    (hgame : args.game = some game) (second : UInt64) : removeLine game second ∉ c.sent := by
  intro hremove
  obtain ⟨first, hfirst⟩ := h.sent_of_one hone hgame
  exact createLine_ne_removeLine args game game first second
    (List.mem_singleton.mp (hfirst.subset hremove)).symm

/-- The second one asks for its removal. -/
theorem Asking.sent (h : Asking args c) {game : String} (hgame : args.game = some game) :
    ∃ first second, c.sent.Sublist [createLine args game first, removeLine game second] := by
  have hasks := h.asks
  rw [asks_eq hgame] at hasks
  have hlength : c.tasks.length ≤ 2 := by simpa using hasks.length_le
  by_cases hone : c.tasks.length ≤ 1
  · obtain ⟨first, hfirst⟩ := h.sent_of_one hone hgame
    exact ⟨first, 0, hfirst.trans (by simp)⟩
  · obtain ⟨one, two, htasks⟩ := List.length_eq_two.mp (by omega : c.tasks.length = 2)
    rw [htasks] at hasks
    obtain ⟨hone, htwo⟩ : one.ask = .create game args.password ∧ two.ask = .remove game := by
      simpa using hasks
    obtain ⟨first, hfirst⟩ := h.line_of_create (by simp [htasks]) hone
    obtain ⟨second, hsecond⟩ := h.line_of_remove (by simp [htasks]) htwo
    refine ⟨first, second, ?_⟩
    rw [h.inTurn.sent, htasks, List.flatMap_cons, List.flatMap_singleton]
    exact hfirst.append hsecond

/-- Who is given no game asks for nothing. -/
theorem Asking.sent_of_none (h : Asking args c) (hgame : args.game = none) : c.sent = [] := by
  have hasks := h.asks
  have hnil : c.tasks = [] := by simpa [Args.asks, hgame] using hasks
  rw [h.inTurn.sent, hnil]
  rfl

/-- What a run has sent, its links have. -/
theorem Stands.sent (h : Stands args r) : r.sent = [] ∨ ∃ c, Asking args c ∧ r.sent = c.sent ∧
    (r.caller = some c ∨ r.caller = some c.drop) := by
  cases h with
  | fresh _ hcaller | never _ _ hcaller => exact .inl (Host.sent_of_none hcaller)
  | going c hc hasking => exact .inr ⟨c, hasking, sent_of_caller hc, .inl hc⟩
  | settled _ c _ hc hasking =>
    exact .inr ⟨c, hasking, (sent_of_caller hc).trans
      (Caller.sent_drop hasking.guarded.sane.linked), .inr hc⟩

/-- Whoever leaves drops the link, and what was sent stays. -/
theorem Asking.sent_leave (h : Asking args c) (hc : r.caller = some c) (exit : Exit) :
    (r.leave exit).sent = r.sent := by
  have hdropped : (r.leave exit).caller = some c.drop := by simp [Run.leave, hc]
  rw [sent_of_caller hc, sent_of_caller hdropped, Caller.sent_drop h.guarded.sane.linked]

theorem sent_of_does (h : Stands args r) (hdoes : r.Does args event r')
    (hgoes : ∀ exit, r.stage ≠ .ended exit) : r.sent <+: r'.sent := by
  cases h with
  | never exit hstage | settled exit _ hstage => exact absurd hstage (hgoes exit)
  | fresh _ hcaller =>
    rw [sent_of_none hcaller]
    exact List.nil_prefix
  | going c hc hasking hplace =>
    have hsame : r'.caller = r.caller → r.sent <+: r'.sent := by
      intro hcaller
      have hsent : r'.sent = r.sent := by rw [Run.sent, Run.sent, hcaller]
      exact hsent ▸ List.prefix_rfl
    have hstep : ∀ next, r'.caller = some (c.step next) → r.sent <+: r'.sent := by
      intro next hcaller
      rw [sent_of_caller hc, sent_of_caller hcaller]
      exact Caller.sent_of_step hasking.guarded next
    cases hdoes with
    | stays _ _ _ hcaller | served _ _ _ _ _ hcaller | created _ _ _ _ _ _ _ hcaller
    | closes _ _ _ _ _ _ hcaller => exact hsame hcaller
    | went _ c' next _ hc' =>
      obtain rfl := Option.some.inj (hc.symm.trans hc')
      exact hstep next rfl
    | creates _ _ c' _ _ _ hc' _ hcaller | removes _ c' _ _ _ hc' _ hcaller =>
      obtain rfl := Option.some.inj (hc.symm.trans hc')
      exact hstep _ hcaller
    | left _ exit => exact (hasking.sent_leave hc exit).symm ▸ List.prefix_rfl
    | dialed hdialing =>
      rw [hdialing] at hplace
      cases hplace

end

end GameRelay.Host
