import GameRelay.Proofs.Host.Sent
import Mathlib.Data.List.Induction

/-!
# What the host asks of the relay

The host asks at most twice, for its game and for the removal of it, and for the
second only once it was interrupted after the first was answered.
-/

set_option autoImplicit false

namespace GameRelay.Host

open GameRelay.Outbound GameRelay.Text

def runOf (args : Args) (events : List RunEvent) : Run := ({} : Run).run args events

theorem stands_of_run (args : Args) (events : List RunEvent) : Stands args (runOf args events) :=
  run_stands (fresh_stands args) events

theorem runOf_concat (args : Args) (events : List RunEvent) (event : RunEvent) :
    runOf args (events ++ [event]) = (runOf args events).step args event :=
  Run.run_append args {} events [event]

theorem runOf_append (args : Args) (events more : List RunEvent) :
    runOf args (events ++ more) = (runOf args events).run args more :=
  Run.run_append args {} events more

/-- A run that is over stays as it is. -/
theorem run_ended (args : Args) {r : Run} {exit : Exit} (h : r.stage = .ended exit)
    (events : List RunEvent) : r.run args events = r := by
  induction events with
  | nil => rfl
  | cons event rest ih => rw [Run.run, Run.step_ended args r event exit h, ih]

theorem sent_of_run {args : Args} {r : Run} (h : Stands args r) (events : List RunEvent) :
    r.sent <+: (r.run args events).sent := by
  induction events generalizing r with
  | nil => exact List.prefix_rfl
  | cons event rest ih =>
    refine List.IsPrefix.trans ?_ (ih (step_stands h event))
    by_cases hover : ∃ exit, r.stage = .ended exit
    · obtain ⟨exit, hexit⟩ := hover
      have hsent : (Run.step args r event).sent = r.sent := by
        rw [Run.step_ended args r event exit hexit]
      exact hsent ▸ List.prefix_rfl
    · exact sent_of_does h (Run.step_does args r event) fun exit hexit => hover ⟨exit, hexit⟩

theorem listener_of_run {args : Args} (events : List RunEvent) {r : Run}
    (h : (r.run args events).listener = none) : r.listener = none := by
  induction events generalizing r with
  | nil => exact h
  | cons event rest ih => exact listener_of_does (Run.step_does args r event) (ih h)

/-- What ends a run ends it for good. -/
theorem runOf_left (args : Args) (before after : List RunEvent) {event : RunEvent} {exit : Exit}
    (h : (runOf args before).step args event = (runOf args before).leave exit) :
    runOf args (before ++ event :: after) = (runOf args before).leave exit := by
  rw [runOf_append, Run.run, h]
  exact run_ended args rfl after

/-- No socket was bound where there is none in the end. -/
theorem never_bound {args : Args} {events : List RunEvent}
    (h : (runOf args events).listener = none) :
    ∀ earlier, earlier <+: events → (runOf args earlier).listener = none := by
  rintro earlier ⟨later, rfl⟩
  rw [runOf_append] at h
  exact listener_of_run later h

/-- Where there is a second task, the host was interrupted while it served. -/
theorem interrupted_of_second (args : Args) (events : List RunEvent) {c : Caller}
    (hc : (runOf args events).caller = some c) (hsecond : 1 < c.tasks.length) :
    ∃ before after, events = before ++ .interrupt :: after ∧
      (runOf args before).stage = .serving := by
  induction events using List.reverseRecOn generalizing c with
  | nil => simp [runOf, Run.run] at hc
  | append_singleton events event ih =>
    rw [runOf_concat] at hc
    rcases second_of_does (stands_of_run args events) (Run.step_does args _ event) hc
      hsecond with ⟨d, hd, hsecond⟩ | ⟨rfl, hserving, -⟩
    · obtain ⟨before, after, rfl, hserving⟩ := ih hd hsecond
      exact ⟨before, after ++ [event], by simp, hserving⟩
    · exact ⟨events, [], rfl, hserving⟩

/-- What a run comes to in which the relay was not reached. -/
theorem left_undialed {args : Args} {before : List RunEvent} (error : RelayError)
    (after : List RunEvent) (hstage : (runOf args before).stage = .dialing) {run : Run}
    (hrun : runOf args (before ++ .dialed (.error error) :: after) = run) :
    run.stage = .ended (.failed error) ∧ run.sent = [] ∧ run.listener = none := by
  have hleft : runOf args (before ++ .dialed (.error error) :: after) =
      (runOf args before).leave (.failed error) :=
    runOf_left args before after (by simp [Run.step, hstage, Run.dialed])
  obtain ⟨hcaller, hlistener⟩ := (stands_of_run args before).dialing hstage
  rw [hleft] at hrun
  subst hrun
  refine ⟨by rw [Run.leave], sent_of_none ?_, ?_⟩
  · rw [Run.leave, hcaller]
    rfl
  · rw [Run.leave, hlistener]
    rfl

/-- What a run comes to in which the socket could not be bound. -/
theorem left_unbound {args : Args} {before : List RunEvent} (error : RelayError)
    (after : List RunEvent) (hstage : (runOf args before).stage = .binding) {run : Run}
    (hrun : runOf args (before ++ .bound (.error error) :: after) = run) :
    run.stage = .ended (.failed error) ∧ run.sent = [] ∧ run.listener = none ∧
      ∃ c l, run.caller = some c ∧ c.links = [l] ∧ l.dropped = true ∧ l.reader = .ended ∧
        l.writer = .ended := by
  have hleft : runOf args (before ++ .bound (.error error) :: after) =
      (runOf args before).leave (.failed error) :=
    runOf_left args before after (by simp [Run.step, hstage, Run.bound])
  obtain ⟨c, hc, hasking, hnil, hinstalled, hlistener⟩ :=
    (stands_of_run args before).binding hstage
  have hdropped : ((runOf args before).leave (.failed error)).caller = some c.drop := by
    rw [Run.leave, hc]
    rfl
  rw [hleft] at hrun
  subst hrun
  refine ⟨by rw [Run.leave], ?_, ?_, ?_⟩
  · rw [hasking.sent_leave hc, sent_of_caller hc, hasking.inTurn.sent, hnil]
    rfl
  · rw [Run.leave, hlistener]
    rfl
  · obtain ⟨l, hlinks, hclosed⟩ := Caller.drop_unused hasking.guarded.sane hnil hinstalled
    exact ⟨c.drop, l, hdropped, hlinks, hclosed⟩

/-- What a run comes to in which the interrupt could not be waited for. -/
theorem left_deaf {args : Args} {before : List RunEvent} (error : SystemError)
    (after : List RunEvent) (hstage : (runOf args before).stage = .serving) :
    (runOf args (before ++ .deaf error :: after)).stage = .ended (.deaf error) ∧
      (runOf args (before ++ .deaf error :: after)).sent = (runOf args before).sent := by
  have hleft : runOf args (before ++ .deaf error :: after) =
      (runOf args before).leave (.deaf error) :=
    runOf_left args before after (by simp [Run.step, hstage])
  obtain ⟨c, hc, hasking, -⟩ := (stands_of_run args before).serving hstage
  rw [hleft]
  exact ⟨by rw [Run.leave], hasking.sent_leave hc _⟩

/-- Who asks for the removal of the game has a second task. -/
theorem second_of_removed {args : Args} {r : Run} (h : Stands args r) {game : String}
    {second : UInt64} (hgame : args.game = some game) (hremove : removeLine game second ∈ r.sent) :
    ∃ c, r.caller = some c ∧ 1 < c.tasks.length := by
  obtain ⟨c, hasking, hsent, hc⟩ := h.sent.resolve_left fun hnone => by
    simp [hnone] at hremove
  have hsecond : 1 < c.tasks.length := by
    by_contra hone
    exact hasking.not_removed (by omega) hgame second (hsent ▸ hremove)
  rcases hc with hc | hc
  · exact ⟨c, hc, hsecond⟩
  · exact ⟨c.drop, hc, by simpa [Caller.drop] using hsecond⟩

structure Asked (args : Args) (events : List RunEvent) : Prop where
  /-- The writers of all links were given these lines and no other byte. -/
  bytes : ∀ c, (runOf args events).caller = some c →
    (c.links.flatMap fun l => l.written ++ l.unwritten) = (runOf args events).sent.flatten
  grows : ∀ before, before <+: events → (runOf args before).sent <+: (runOf args events).sent
  silent : args.game = none → (runOf args events).sent = []
  /-- Nothing but the game, and the removal of it after that, is asked for, and each once. -/
  atMost : ∀ game, args.game = some game → ∃ first second,
    (runOf args events).sent.Sublist [createLine args game first, removeLine game second]
  /-- Where the relay is not reached no socket is ever bound. -/
  undialed : ∀ before error after, events = before ++ .dialed (.error error) :: after →
    (runOf args before).stage = .dialing →
    (runOf args events).stage = .ended (.failed error) ∧ (runOf args events).sent = [] ∧
      ∀ earlier, earlier <+: events → (runOf args earlier).listener = none
  /-- Where the socket cannot be bound the link is closed again. -/
  unbound : ∀ before error after, events = before ++ .bound (.error error) :: after →
    (runOf args before).stage = .binding →
    (runOf args events).stage = .ended (.failed error) ∧ (runOf args events).sent = [] ∧
      (∀ earlier, earlier <+: events → (runOf args earlier).listener = none) ∧
      ∃ c l, (runOf args events).caller = some c ∧ c.links = [l] ∧ l.dropped = true ∧
        l.reader = .ended ∧ l.writer = .ended
  /-- Where the interrupt cannot be waited for, nothing more is asked for. -/
  deaf : ∀ before error after, events = before ++ .deaf error :: after →
    (runOf args before).stage = .serving →
    (runOf args events).stage = .ended (.deaf error) ∧
      (runOf args events).sent = (runOf args before).sent
  /-- The removal is asked for only after the game was, and the host was interrupted. -/
  interrupted : ∀ game second, args.game = some game →
    removeLine game second ∈ (runOf args events).sent →
    ∃ before after c verdict, events = before ++ .interrupt :: after ∧
      (runOf args before).stage = .serving ∧ (runOf args before).caller = some c ∧
      c.tasks.map Task.ask = [.create game args.password] ∧ c.verdict? 0 = some verdict ∧
      ∀ id, removeLine game id ∉ (runOf args before).sent

theorem run_asked (args : Args) (events : List RunEvent) : Asked args events := by
  have hstands := stands_of_run args events
  constructor
  case bytes =>
    intro c hc
    rw [sent_of_caller hc]
    apply Caller.bytes_of_sent
    cases hstands with
    | fresh _ hcaller | never _ _ hcaller => simp [hcaller] at hc
    | going d hd hasking =>
      obtain rfl := Option.some.inj (hc.symm.trans hd)
      exact hasking.guarded.sane.linked.reached
    | settled _ d _ hd hasking =>
      obtain rfl := Option.some.inj (hc.symm.trans hd)
      exact Caller.reached_drop hasking.guarded.sane.linked
  case grows =>
    rintro before ⟨after, rfl⟩
    rw [runOf_append]
    exact sent_of_run (stands_of_run args before) after
  case silent =>
    intro hgame
    rcases hstands.sent with hnone | ⟨c, hasking, hsent, -⟩
    · exact hnone
    · rw [hsent, hasking.sent_of_none hgame]
  case atMost =>
    intro game hgame
    rcases hstands.sent with hnone | ⟨c, hasking, hsent, -⟩
    · exact ⟨0, 0, hnone ▸ List.nil_sublist _⟩
    · rw [hsent]
      exact hasking.sent hgame
  case undialed =>
    rintro before error after rfl hstage
    obtain ⟨hended, hsent, hlistener⟩ := left_undialed error after hstage rfl
    exact ⟨hended, hsent, never_bound hlistener⟩
  case unbound =>
    rintro before error after rfl hstage
    obtain ⟨hended, hsent, hlistener, hclosed⟩ := left_unbound error after hstage rfl
    exact ⟨hended, hsent, never_bound hlistener, hclosed⟩
  case deaf =>
    rintro before error after rfl hstage
    exact left_deaf error after hstage
  case interrupted =>
    intro game second hgame hremove
    obtain ⟨c, hc, hsecond⟩ := second_of_removed hstands hgame hremove
    obtain ⟨before, after, hevents, hserving⟩ := interrupted_of_second args events hc hsecond
    obtain ⟨d, hd, hasking', hone, hdone⟩ := (stands_of_run args before).serving hserving
    have hone : d.tasks.length = 1 := hone.resolve_left (by simp [hgame])
    obtain ⟨one, hone'⟩ := List.length_eq_one_iff.mp hone
    obtain ⟨verdict, hverdict⟩ := hdone one (by simp [hone'])
    refine ⟨before, after, d, verdict, hevents, hserving, hd, ?_, ?_, ?_⟩
    · have hasks := hasking'.asks
      rw [hone', asks_eq hgame] at hasks
      simpa [hone'] using hasks
    · simp [Caller.verdict?, hone', hverdict]
    · intro id
      rw [sent_of_caller hd]
      exact hasking'.not_removed (by omega) hgame id

/-- The link is lost before the game is asked for, and again before its removal is. -/
def relinkedTwice : List RunEvent :=
  [.dialed (.ok ()), .bound (.ok "127.0.0.1:5001")] ++
    ([.transport 0 (.finish .closed), .transport 0 .read, .acquire 0, .advance 0, .advance 0,
      .dialed 0 (.ok ()), .advance 0, .advance 0,
      .transport 1 (.arrive (encode "\x7b\"id\":0,\"result\":true\x7d\n")), .transport 1 .read,
      .transport 1 .hand, .advance 0, .advance 0, .advance 0].map .outbound) ++
    [.advance, .interrupt] ++
    ([.transport 1 (.finish .closed), .transport 1 .read, .acquire 1, .advance 1, .advance 1,
      .dialed 1 (.ok ()), .advance 1, .advance 1].map .outbound)

example : let args : Args := ⟨"relay", 5000, "127.0.0.1", none, 5, some "room1", "pw", false⟩
    (runOf args relinkedTwice).stage = .removing 1 ∧
      (runOf args relinkedTwice).sent =
        [createLine args "room1" 0, removeLine "room1" 0] := by
  decide +kernel

end GameRelay.Host
