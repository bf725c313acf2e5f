import GameRelay.Proofs.Frame.Response
import GameRelay.Proofs.Link.Ending
import GameRelay.Proofs.Text.Cut

/-!
# A link that is cut

A stream of responses is cut at some byte. A beginning of a response is no other
response, so the last piece answers the call that its line answers, or none: what a
call returns is what it returns with the whole stream, or that it was disconnected.
-/

set_option autoImplicit false

namespace GameRelay.Outbound

open GameRelay.Frame GameRelay.Json GameRelay.Text

def responseOf? (bytes : List UInt8) : Option Response :=
  match decodeLine bytes with
  | .ok text => (Response.parse text).toOption
  | .error _ => none

theorem parse_of_responseOf? {line : List UInt8} {r : Response} (h : responseOf? line = some r) :
    ∃ text, decodeLine line = .ok text ∧ Response.parse text = .ok r := by
  unfold responseOf? at h
  cases hline : decodeLine line with
  | error what => simp [hline] at h
  | ok text =>
    cases hparse : Response.parse text with
    | error e => simp [hline, hparse, Except.toOption] at h
    | ok r' =>
      obtain rfl : r' = r := by simpa [hline, hparse, Except.toOption] using h
      exact ⟨text, rfl, hparse⟩

/-! ## What decides a call -/

theorem hears_of_ok {line : List UInt8} {text : String} (h : decodeLine line = .ok text)
    (more : List (List UInt8)) : hears (line :: more) = .line text :: hears more := by
  rw [hears, h]

theorem hears_of_error {line : List UInt8} {what : Malformed} (h : decodeLine line = .error what)
    (more : List (List UInt8)) : hears (line :: more) = [.shutDown] := by
  rw [hears, h]

def CutsOrAgrees (id : UInt64) (cut whole : List Heard) : Prop :=
  firstAnswer id cut = .cut ∨ firstAnswer id cut = firstAnswer id whole

theorem cutsOrAgrees_behind (id : UInt64) (full : List (List UInt8))
    {cut whole : List (List UInt8)} (htext : ∀ line ∈ full, ∃ text, decodeLine line = .ok text)
    (h : CutsOrAgrees id (hears cut) (hears whole)) :
    CutsOrAgrees id (hears (full ++ cut)) (hears (full ++ whole)) := by
  induction full with
  | nil => exact h
  | cons line full ih =>
    obtain ⟨text, hline⟩ := htext line List.mem_cons_self
    rw [List.cons_append, List.cons_append, hears_of_ok hline, hears_of_ok hline]
    have hrest := ih fun line hline => htext line (List.mem_cons_of_mem _ hline)
    unfold CutsOrAgrees at hrest ⊢
    rw [firstAnswer, firstAnswer]
    cases answer? id text with
    | some response => exact .inr rfl
    | none => exact hrest

/-- A piece of a response answers the call that the response answers, or none. -/
theorem answer?_of_isPrefix {id : UInt64} {first whole : String} {response r : Response}
    (h : first.toList <+: whole.toList) (hfirst : answer? id first = some response)
    (hwhole : Response.parse whole = .ok r) : answer? id whole = some response := by
  obtain ⟨hparse, hid⟩ := answer?_eq_some_iff.mp hfirst
  obtain rfl := Response.parse_of_isPrefix h hparse hwhole
  exact answer?_eq_some_iff.mpr ⟨hwhole, hid⟩

theorem cutsOrAgrees_piece (id : UInt64) {piece line : List UInt8} (more : List (List UInt8))
    (hpiece : piece <+: line) {r : Response} (haccepted : responseOf? line = some r) :
    CutsOrAgrees id (hears [piece]) (hears (line :: more)) := by
  obtain ⟨whole, hline, hparse⟩ := parse_of_responseOf? haccepted
  unfold CutsOrAgrees
  cases hdecode : decodeLine piece with
  | error what =>
    left
    rw [hears_of_error hdecode]
    rfl
  | ok first =>
    rw [hears_of_ok hdecode, hears_of_ok hline, firstAnswer]
    cases hfirst : answer? id first with
    | none => exact .inl rfl
    | some response =>
      right
      rw [firstAnswer,
        answer?_of_isPrefix (isPrefix_of_decodeLine hdecode hline hpiece) hfirst hparse]

theorem cutsOrAgrees_of_cutLines (id : UInt64) {cut whole : List (List UInt8)}
    (h : CutLines cut whole) (haccepted : ∀ line ∈ whole, ∃ r, responseOf? line = some r) :
    CutsOrAgrees id (hears cut) (hears whole) := by
  have htext : ∀ line ∈ whole, ∃ text, decodeLine line = .ok text := by
    intro line hline
    obtain ⟨r, hr⟩ := haccepted line hline
    obtain ⟨text, hdecode, -⟩ := parse_of_responseOf? hr
    exact ⟨text, hdecode⟩
  cases h with
  | between _ more =>
    have hall := cutsOrAgrees_behind id cut (fun line hline =>
      htext line (List.mem_append_left _ hline)) (.inl rfl : CutsOrAgrees id (hears []) (hears more))
    rwa [List.append_nil] at hall
  | inside full more piece line hpiece =>
    obtain ⟨r, hr⟩ := haccepted line (List.mem_append_right _ List.mem_cons_self)
    exact cutsOrAgrees_behind id full (fun line hline =>
      htext line (List.mem_append_left _ hline)) (cutsOrAgrees_piece id more hpiece hr)

/-- What has decided a call stays decided while more is heard. -/
theorem outcome_of_isPrefix {id : UInt64} {want : Want} {log all : List Heard} {o : Outcome}
    (h : log <+: all) (ho : (firstAnswer id log).outcome? want = some o) :
    (firstAnswer id all).outcome? want = some o := by
  obtain ⟨more, rfl⟩ := h
  have hdecided : firstAnswer id log ≠ .empty := by
    intro hempty
    simp [hempty, Mailbox.outcome?] at ho
  rwa [firstAnswer_append more hdecided]

namespace Link

/-! ## Two runs -/

structure Early (l : Link) (k : Nat) (c : Call) : Prop where
  call : l.calls[k]? = some c
  waits : c.stage = .registered ∨ c.stage = .waiting
  entry : (c.id, k) ∈ l.table
  silent : l.heard = []

theorem Early.awaiting {setup : List LinkEvent} {k : Nat} {c : Call}
    (h : Early (({} : Link).run setup) k c) :
    ((({} : Link).run setup).slot k c).Awaiting (({} : Link).run setup) := by
  have hsound := (run_tidy fresh_tidy setup).sound k c h.call
  have hcounted := run_counted setup k c h.call
  generalize ({} : Link).run setup = l at h hsound hcounted
  have hgoing : c.isOver = false := by rcases h.waits with hs | hs <;> simp [Call.isOver, hs]
  have hent : c.stage.isEntered = true := by
    rcases h.waits with hs | hs <;> simp [Stage.isEntered, hs]
  have hletter : (l.slot k c).letter = .empty :=
    (hsound.listed_iff.mp (by simpa [slot] using h.entry)).2
  constructor
  · exact hcounted
  · constructor
    · intro n _ _
      rw [hletter, Slot.log, h.silent, List.drop_nil]
      rfl
    · intro n o _ ho
      rcases h.waits with hs | hs <;> simp [slot, hs, Stage.outcome?] at ho
  · obtain ⟨n, hn⟩ := Option.isSome_iff_exists.mp ((hsound.since hgoing).trans hent)
    have hle := hcounted.since_le n hn
    rw [h.silent, List.length_nil] at hle
    rw [hn, Nat.le_zero.mp hle]
  · rcases h.waits with hs | hs
    · exact .inl hs
    · right
      have hlines : some 1 = some (l.slot k c).lines := by
        simpa [slot, hs, Stage.lines?] using hcounted.lines
      rw [← Option.some.inj hlines]
      exact Nat.one_ne_zero

structure CutShort (setup events cutEvents : List LinkEvent) : Prop where
  writes : ∀ event ∈ setup ++ events, event.failsWrite = false
  cutWrites : ∀ event ∈ setup ++ cutEvents, event.failsWrite = false
  calm : ∀ event ∈ setup ++ events, event.breaks = false
  accepted : ∀ line ∈ lines (LinkEvent.received (setup ++ events)),
    ∃ r, responseOf? line = some r
  cut : LinkEvent.received (setup ++ cutEvents) <+: LinkEvent.received (setup ++ events)

section
variable {setup events cutEvents : List LinkEvent} {k : Nat} {c : Call}

theorem Early.later (h : Early (({} : Link).run setup) k c)
    (hwrites : ∀ event ∈ setup ++ events, event.failsWrite = false) (hsole : Sole c.id k events) :
    (({} : Link).run (setup ++ events)).Healthy ∧
      ∃ c', (({} : Link).run (setup ++ events)).calls[k]? = some c' ∧ c'.id = c.id ∧
        c'.want = c.want ∧ ((({} : Link).run (setup ++ events)).slot k c').Awaiting
          (({} : Link).run (setup ++ events)) := by
  rw [run_append]
  have hhealthy := fresh_healthy.run setup fun e he => hwrites e (List.mem_append_left _ he)
  have hmore := fun e he => hwrites e (List.mem_append_right setup he)
  exact ⟨hhealthy.run events hmore,
    run_awaiting events hhealthy hmore h.call h.awaiting hsole⟩

/-- What decided a call that returned, among the lines that arrived. -/
theorem Early.outcome (h : Early (({} : Link).run setup) k c)
    (hwrites : ∀ event ∈ setup ++ events, event.failsWrite = false) (hsole : Sole c.id k events)
    {calm : Prop} (hcalm : calm → ∀ event ∈ setup ++ events, event.breaks = false) {o : Outcome}
    (ho : (({} : Link).run (setup ++ events)).Returns k o) :
    ∃ first, first <+: lines (LinkEvent.received (setup ++ events)) ∧
      (calm → first = lines (LinkEvent.received (setup ++ events))) ∧
      (firstAnswer c.id (hears first)).outcome? c.want = some o := by
  obtain ⟨last, hlast, hs⟩ := ho
  obtain ⟨-, c', hk', hid, hwant, hawaiting⟩ := h.later hwrites hsole
  obtain rfl := Option.some.inj (hk'.symm.trans hlast)
  obtain ⟨taken, hlistens⟩ := Listens.run (setup ++ events) [] hcalm hwrites
    (listens_fresh calm (LinkEvent.received (setup ++ events ++ [])))
  rw [List.append_nil] at hlistens
  obtain ⟨first, hfirst, hwhole, hheard⟩ := hlistens.heard
  have houtcome := hawaiting.outcome hs
  simp only [slot, hid, hwant] at houtcome
  exact ⟨first, hfirst, hwhole, outcome_of_isPrefix hheard houtcome⟩

theorem CutShort.own (h : CutShort setup events cutEvents) {steps : List LinkEvent}
    (hsteps : ∀ event ∈ steps, OwnStep k event) :
    CutShort setup events (cutEvents ++ steps) where
  writes := h.writes
  cutWrites := by
    intro event he
    rw [← List.append_assoc] at he
    rcases List.mem_append.mp he with he | he
    · exact h.cutWrites event he
    · exact writes_of_ownSteps hsteps event he
  calm := h.calm
  accepted := h.accepted
  cut := by
    rw [← List.append_assoc, received_of_ownSteps hsteps]
    exact h.cut

/-- What a call returns when the stream was cut, next to what it returns with the whole one. -/
theorem CutShort.agrees (h : CutShort setup events cutEvents)
    (hearly : Early (({} : Link).run setup) k c) (hsole : Sole c.id k events)
    (hcutSole : Sole c.id k cutEvents) {o o' : Outcome}
    (ho : (({} : Link).run (setup ++ events)).Returns k o)
    (ho' : (({} : Link).run (setup ++ cutEvents)).Returns k o') :
    o' = o ∨ o' = .error .disconnected := by
  obtain ⟨all, -, hall, houtcome⟩ :=
    hearly.outcome h.writes hsole (fun _ : True => h.calm) ho
  obtain rfl := hall trivial
  obtain ⟨first, hfirst, -, houtcome'⟩ :=
    hearly.outcome h.cutWrites hcutSole False.elim ho'
  have hlines := (cutLines_of_isPrefix h.cut).of_isPrefix hfirst
  rcases cutsOrAgrees_of_cutLines c.id hlines h.accepted with hcutOff | hagrees
  · right
    rw [hcutOff] at houtcome'
    exact (Option.some.inj houtcome').symm
  · left
    rw [hagrees, houtcome] at houtcome'
    exact (Option.some.inj houtcome').symm

/-- Once the stream has been cut, a call needs but the reader and itself to return. -/
theorem CutShort.returns (h : CutShort setup events cutEvents)
    (hearly : Early (({} : Link).run setup) k c) (hsole : Sole c.id k events)
    (hcutSole : Sole c.id k cutEvents)
    (hended : (({} : Link).run (setup ++ cutEvents)).incoming.ending.isSome = true) {now : Call}
    (hnow : (({} : Link).run (setup ++ cutEvents)).calls[k]? = some now)
    (hgiven : now.isGivenUp = false) :
    ∃ steps o', (∀ event ∈ steps, OwnStep k event) ∧
      ((({} : Link).run (setup ++ cutEvents)).run steps).Returns k o' ∧
      ∀ o, (({} : Link).run (setup ++ events)).Returns k o →
        o' = o ∨ o' = .error .disconnected := by
  obtain ⟨why, hwhy⟩ := Option.isSome_iff_exists.mp hended
  obtain ⟨hhealthy, now', hk, -, -, hawaiting⟩ := hearly.later h.cutWrites hcutSole
  obtain rfl := Option.some.inj (hk.symm.trans hnow)
  obtain ⟨steps, o', hsteps, hreturns⟩ := returns_of_ended hhealthy hwhy hk hawaiting hgiven
  refine ⟨steps, o', hsteps, hreturns, ?_⟩
  intro o ho
  rw [← run_append, List.append_assoc] at hreturns
  exact (h.own hsteps).agrees hearly hsole
    (hcutSole.append (sole_of_ownSteps hsteps c.id)) ho hreturns

end

end Link

end GameRelay.Outbound
