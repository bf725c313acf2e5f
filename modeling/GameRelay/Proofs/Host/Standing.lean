import GameRelay.Proofs.Caller.Answer
import GameRelay.Proofs.Caller.InTurn
import GameRelay.Proofs.Host.Step

/-!
# Where a run of the host stands

The stage tells how much was asked for, and whether it was answered: the game in
one stage, its removal in a later one.
-/

set_option autoImplicit false

namespace GameRelay.Host

open GameRelay.Outbound

def Args.asks (args : Args) : List Ask :=
  match args.game with
  | none => []
  | some game => [.create game args.password, .remove game]

structure Asking (args : Args) (c : Caller) : Prop where
  guarded : c.Guarded
  inTurn : c.InTurn
  asks : c.tasks.map Task.ask <+: args.asks

inductive Place (args : Args) (c : Caller) : Stage → Prop where
  | binding : c.tasks = [] → c.installed = 0 → Place args c .binding
  | creating : c.tasks.length = 1 → Place args c (.creating 0)
  | serving : args.game = none ∨ c.tasks.length = 1 →
      (∀ task ∈ c.tasks, ∃ verdict, task.progress = .done verdict) → Place args c .serving
  | removing : Place args c (.removing 1)
  | closing (k : Nat) : Place args c (.closing k)

inductive Stands (args : Args) (r : Run) : Prop where
  | fresh : r.stage = .dialing → r.caller = none → r.listener = none → Stands args r
  | going (c : Caller) : r.caller = some c → Asking args c → Place args c r.stage →
      (r.stage = .binding → r.listener = none) → Stands args r
  | never (exit : Exit) : r.stage = .ended exit → r.caller = none → r.listener = none →
      Stands args r
  | settled (exit : Exit) (c : Caller) : r.stage = .ended exit → r.caller = some c.drop →
      Asking args c → Stands args r

section
variable {args : Args} {c : Caller} {stage : Stage}

theorem fresh_asking (args : Args) : Asking args {} := by
  refine ⟨Caller.fresh_guarded, ⟨fun t task ht => by simp at ht, rfl⟩, ?_⟩
  exact List.nil_prefix

theorem Asking.step (h : Asking args c) {event : CallerEvent} (hask : ∀ what, event ≠ .ask what) :
    Asking args (c.step event) :=
  ⟨Caller.step_guarded h.guarded event, Caller.inTurn_of_step h.guarded h.inTurn hask,
    Caller.asks_of_step c hask ▸ h.asks⟩

theorem Asking.ask (h : Asking args c) (what : Ask)
    (hdone : ∀ task ∈ c.tasks, ∃ verdict, task.progress = .done verdict)
    (hasks : c.tasks.map Task.ask ++ [what] <+: args.asks) : Asking args (c.step (.ask what)) := by
  refine ⟨Caller.step_guarded h.guarded _, Caller.inTurn_of_ask h.inTurn what hdone, ?_⟩
  simpa [Caller.step] using hasks

/-- A run of the links by itself keeps the place. -/
theorem Place.step (h : Place args c stage) (hasking : Asking args c) {event : CallerEvent}
    (hask : ∀ what, event ≠ .ask what) : Place args (c.step event) stage := by
  have hlength := Caller.length_of_step c hask
  cases h with
  | binding hnil hinstalled =>
    refine .binding (List.eq_nil_of_length_eq_zero (by rw [hlength, hnil]; rfl)) ?_
    cases Caller.step_turns c event with
    | none _ _ hsame | asked _ _ _ hsame => exact hsame.trans hinstalled
    | went t task task' hgoes =>
      have ht := hgoes.before
      simp [hnil] at ht
  | creating hone => exact .creating (hlength.trans hone)
  | serving hone hdone =>
    refine .serving (hone.imp_right hlength.trans) fun task' htask' => ?_
    obtain ⟨t, ht'⟩ := List.mem_iff_getElem?.mp htask'
    have hlt : t < c.tasks.length := hlength ▸ (List.getElem?_eq_some_iff.mp ht').1
    have ht := List.getElem?_eq_getElem hlt
    obtain ⟨verdict, hverdict⟩ := hdone _ (List.mem_of_getElem? ht)
    obtain rfl := Option.some.inj
      (ht'.symm.trans (Caller.step_done hasking.guarded.placed event ht hverdict))
    exact ⟨verdict, hverdict⟩
  | removing => exact .removing
  | closing k => exact .closing k

/-- What is asked for first is the game. -/
theorem asks_eq {game : String} (h : args.game = some game) :
    args.asks = [.create game args.password, .remove game] := by
  rw [Args.asks, h]

end

/-- Who was created has been answered. -/
theorem done_of_accepted {r : Run} {c : Caller} (hc : r.caller = some c) (hone : c.tasks.length = 1)
    {accepted : Bool} (h : r.accepted? 0 = some accepted) :
    ∀ task ∈ c.tasks, ∃ verdict, task.progress = .done verdict := by
  obtain ⟨task, htasks⟩ := List.length_eq_one_iff.mp hone
  intro other hother
  obtain rfl : other = task := by simpa [htasks] using hother
  obtain ⟨verdict, hverdict, -⟩ := Option.map_eq_some_iff.mp h
  rw [hc, Option.bind_some] at hverdict
  exact ⟨verdict, Caller.progress_of_verdict (by simp [htasks]) hverdict⟩

/-- A stage that is over leads nowhere. -/
theorem stands_of_does {args : Args} {r r' : Run} {event : RunEvent} (h : Stands args r)
    (hdoes : r.Does args event r') (hgoes : ∀ exit, r.stage ≠ .ended exit) : Stands args r' := by
  cases h with
  | never exit hstage | settled exit _ hstage => exact absurd hstage (hgoes exit)
  | fresh hstage hcaller hlistener =>
    cases hdoes with
    | stays _ _ hstage' hcaller' hlistener' =>
      exact .fresh (hstage'.trans hstage) (hcaller'.trans hcaller)
        (by simpa [hlistener] using hlistener')
    | left _ exit =>
      exact .never exit rfl (by simp [Run.leave, hcaller]) (by simp [Run.leave, hlistener])
    | dialed => exact .going {} rfl (fresh_asking args) (.binding rfl rfl) fun _ => hlistener
    | went _ _ _ _ hc => simp [hcaller] at hc
    | served _ _ hbinding | creates _ _ _ _ hbinding => simp [hstage] at hbinding
    | created _ _ _ _ hcreating => simp [hstage] at hcreating
    | removes _ _ _ hserving => simp [hstage] at hserving
    | closes _ _ _ hdialing => exact absurd hstage hdialing
  | going c hc hasking hplace hlistener =>
    cases hdoes with
    | stays _ _ hstage' hcaller' hlistener' =>
      refine .going c (hcaller'.trans hc) hasking (hstage' ▸ hplace) fun hbinding => ?_
      simpa [hlistener (hstage'.symm.trans hbinding)] using hlistener'
    | went _ c' more hask hc' =>
      obtain rfl := Option.some.inj (hc.symm.trans hc')
      exact .going _ rfl (hasking.step hask) (hplace.step hasking hask) hlistener
    | left _ exit => exact .settled exit c rfl (by simp [Run.leave, hc]) hasking
    | dialed hdialing =>
      rw [hdialing] at hplace
      cases hplace
    | served _ _ hbinding hgame hserving hcaller' =>
      rw [hbinding] at hplace
      cases hplace with
      | binding hnil =>
        refine .going c (hcaller'.trans hc) hasking ?_ (by simp [hserving])
        rw [hserving]
        exact .serving (.inl (hgame.resolve_right (by simp [hc]))) (by simp [hnil])
    | creates _ game c' _ hbinding hgame hc' hcreating hcaller' =>
      obtain rfl := Option.some.inj (hc.symm.trans hc')
      rw [hbinding] at hplace
      cases hplace with
      | binding hnil =>
        refine .going _ hcaller' (hasking.ask _ (by simp [hnil]) ?_) ?_ (by simp [hcreating])
        · simp [hnil, asks_eq hgame]
        · rw [hcreating, hnil]
          exact .creating (by simp [Caller.step, hnil])
    | created _ t accepted _ hcreating haccepted hserving hcaller' =>
      rw [hcreating] at hplace
      cases hplace with
      | creating hone =>
        refine .going c (hcaller'.trans hc) hasking ?_ (by simp [hserving])
        rw [hserving]
        exact .serving (.inr hone) (done_of_accepted hc hone haccepted)
    | removes game c' _ hserving hgame hc' hremoving hcaller' =>
      obtain rfl := Option.some.inj (hc.symm.trans hc')
      rw [hserving] at hplace
      cases hplace with
      | serving hone hdone =>
        have hone : c.tasks.length = 1 := hone.resolve_left (by simp [hgame])
        refine .going _ hcaller' (hasking.ask _ hdone ?_) ?_ (by simp [hremoving])
        · have hasks := hasking.asks
          obtain ⟨task, htasks⟩ := List.length_eq_one_iff.mp hone
          rw [asks_eq hgame, htasks] at hasks
          rw [asks_eq hgame, htasks]
          simpa using hasks
        · rw [hremoving, hone]
          exact .removing
    | closes _ k _ _ _ hclosing hcaller' =>
      refine .going c (hcaller'.trans hc) hasking ?_ (by simp [hclosing])
      rw [hclosing]
      exact .closing k

theorem step_stands {args : Args} {r : Run} (h : Stands args r) (event : RunEvent) :
    Stands args (r.step args event) := by
  by_cases hover : ∃ exit, r.stage = .ended exit
  · obtain ⟨exit, hexit⟩ := hover
    rw [Run.step_ended args r event exit hexit]
    exact h
  · exact stands_of_does h (Run.step_does args r event) fun exit hexit => hover ⟨exit, hexit⟩

theorem run_stands {args : Args} {r : Run} (h : Stands args r) (events : List RunEvent) :
    Stands args (r.run args events) := by
  induction events generalizing r with
  | nil => exact h
  | cons event rest ih => exact ih (step_stands h event)

theorem fresh_stands (args : Args) : Stands args {} := .fresh rfl rfl rfl

/-! ## What the stage tells -/

section
variable {args : Args} {r r' : Run} {c : Caller} {event : RunEvent}

theorem Stands.dialing (h : Stands args r) (hstage : r.stage = .dialing) :
    r.caller = none ∧ r.listener = none := by
  cases h with
  | fresh _ hcaller hlistener => exact ⟨hcaller, hlistener⟩
  | never _ hended | settled _ _ hended => simp [hstage] at hended
  | going c _ _ hplace =>
    rw [hstage] at hplace
    cases hplace

theorem Stands.binding (h : Stands args r) (hstage : r.stage = .binding) :
    ∃ c, r.caller = some c ∧ Asking args c ∧ c.tasks = [] ∧ c.installed = 0 ∧
      r.listener = none := by
  cases h with
  | fresh hdialing => simp [hstage] at hdialing
  | never _ hended | settled _ _ hended => simp [hstage] at hended
  | going c hc hasking hplace hlistener =>
    rw [hstage] at hplace
    cases hplace with
    | binding hnil hinstalled => exact ⟨c, hc, hasking, hnil, hinstalled, hlistener hstage⟩

/-- While the host serves, its game was answered, if it was given one. -/
theorem Stands.serving (h : Stands args r) (hstage : r.stage = .serving) :
    ∃ c, r.caller = some c ∧ Asking args c ∧ (args.game = none ∨ c.tasks.length = 1) ∧
      ∀ task ∈ c.tasks, ∃ verdict, task.progress = .done verdict := by
  cases h with
  | fresh hdialing => simp [hstage] at hdialing
  | never _ hended | settled _ _ hended => simp [hstage] at hended
  | going c hc hasking hplace =>
    rw [hstage] at hplace
    cases hplace with
    | serving hone hdone => exact ⟨c, hc, hasking, hone, hdone⟩

/-- A socket that was bound stays. -/
theorem listener_of_does (hdoes : r.Does args event r') (h : r'.listener = none) :
    r.listener = none := by
  cases hdoes with
  | stays _ _ _ _ hsame | closes _ _ _ _ _ _ _ hsame => simpa [h] using hsame.symm
  | went | dialed => exact h
  | left _ exit => simpa [Run.leave] using h
  | served _ _ _ _ _ _ hsome | creates _ _ _ _ _ _ _ _ _ hsome => simp [h] at hsome
  | created _ _ _ _ _ _ _ _ hsame | removes _ _ _ _ _ _ _ _ hsame => exact hsame ▸ h

/-- Only an interrupt brings in a second task. -/
theorem second_of_does (h : Stands args r) (hdoes : r.Does args event r') (hc : r'.caller = some c)
    (hsecond : 1 < c.tasks.length) :
    (∃ before, r.caller = some before ∧ 1 < before.tasks.length) ∨
      (event = .interrupt ∧ r.stage = .serving ∧ ∃ game, args.game = some game) := by
  cases hdoes with
  | stays _ _ _ hcaller | served _ _ _ _ _ hcaller | created _ _ _ _ _ _ _ hcaller
  | closes _ _ _ _ _ _ hcaller => exact .inl ⟨c, hcaller ▸ hc, hsecond⟩
  | went _ before next hask hbefore =>
    obtain rfl := Option.some.inj hc
    rw [Caller.length_of_step before hask] at hsecond
    exact .inl ⟨before, hbefore, hsecond⟩
  | left _ exit =>
    obtain ⟨before, hbefore, rfl⟩ := Option.map_eq_some_iff.mp hc
    exact .inl ⟨before, hbefore, by simpa [Caller.drop] using hsecond⟩
  | dialed =>
    obtain rfl := Option.some.inj hc
    simp at hsecond
  | creates _ _ before _ hbinding _ hbefore _ hcaller =>
    obtain rfl := Option.some.inj (hcaller.symm.trans hc)
    cases h with
    | fresh hstage | never _ hstage | settled _ _ hstage => simp [hstage] at hbinding
    | going before' hbefore' _ hplace =>
      obtain rfl := Option.some.inj (hbefore.symm.trans hbefore')
      rw [hbinding] at hplace
      cases hplace with
      | binding hnil => simp [Caller.step, hnil] at hsecond
  | removes game _ _ hserving hgame => exact .inr ⟨rfl, hserving, game, hgame⟩

end

end GameRelay.Host
