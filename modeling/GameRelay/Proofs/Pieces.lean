import GameRelay.Proofs.Inbound.Pieces
import GameRelay.Proofs.Inbound.Reply
import GameRelay.Proofs.Link.Pieces

/-!
# Streams in pieces, in both directions

Whatever the pieces are in which bytes arrive, and whenever they are read, a
connection answers the same and reports the same, and a link is left the same.
-/

set_option autoImplicit false

namespace GameRelay

open GameRelay.Frame GameRelay.Inbound GameRelay.Json GameRelay.Outbound GameRelay.Text

/-- A piece may end inside a line, an escape or a character. On the way in, it does not matter
whether a connection has the consumer for itself, as long as handlers come to the same. On the
way out, calls may go on while the reader is on its way. -/
theorem pieces_change_nothing :
    (∀ (σ : Type) (consumer : Consumer σ) (l : Listener σ) (c : Nat)
      (bytes : List UInt8) (events : List ListenerEvent),
      l.Arrives consumer c bytes events → l.InPieces consumer c bytes events) ∧
    (∀ (σ : Type) (consumer : Consumer σ) (l : Listener σ) (c : Nat)
      (bytes : List UInt8) (events other : List ListenerEvent),
      l.Brings consumer c bytes events → l.Brings consumer c bytes other →
      (l.run consumer events).EndedOn c → (l.run consumer other).EndedOn c →
      (l.callbacksOn consumer c other).map Prod.snd =
        (l.callbacksOn consumer c events).map Prod.snd →
      (l.run consumer other).repliedOn c = (l.run consumer events).repliedOn c) ∧
    (∀ (l : Link) (bytes : List UInt8) (events : List LinkEvent),
      l.Fed bytes events → l.InPieces bytes events) ∧
    ∀ setup events other : List LinkEvent,
      Link.SameBytes setup events other → Link.Meanwhile setup events other := by
  refine ⟨?_, ?_, ?_, ?_⟩
  · intro σ consumer l c bytes events h
    exact h.inPieces
  · intro σ consumer l c bytes events other h h' hended hended' hreactions
    exact h.same h' hended hended' hreactions
  · intro l bytes events h
    exact h.inPieces
  · intro setup events other h
    exact h.meanwhile

def spelledRequests : String :=
  "[\"ClientRPCMethods.GameClosed\",[[\"\\u00e9\"]],\"é\"]\n[\"ClientRPCMethods.Status\",null,2]"

def servedInTwo (count : Nat) : List ListenerEvent :=
  [.arrive 0 ((encode spelledRequests).take count), .read 0,
    .arrive 0 ((encode spelledRequests).drop count), .finish 0 .closed, .read 0, .handle 0,
    .write 0, .read 0, .handle 0, .write 0, .read 0]

def waitingCalls : List LinkEvent :=
  [.start "new_game" (.value .null) .boolean, .start "new_game" (.value .null) .boolean,
    .call 0 .register, .call 1 .register, .call 0 .queue, .call 1 .queue]

def spelledAnswers : String :=
  "\x7b\"id\":1,\"result\":false\x7d\n\x7b\"id\":0,\"result\":\"\\u00e9é\"\x7d\n"

def readInTwo (count : Nat) : List LinkEvent :=
  [.transport (.arrive ((encode spelledAnswers).take count)), .transport .read,
    .transport (.arrive ((encode spelledAnswers).drop count)), .transport .hand,
    .transport (.finish .closed)]

abbrev oneConnection : Listener Nat := { state := 0, connections := [{}] }

theorem arrives_servedInTwo {count : Nat} (h : count ∈ [36, 46]) :
    oneConnection.Arrives Listener.counting 0 (encode spelledRequests) (servedInTwo count) := by
  have hcalm : ∀ count ∈ [36, 46], ∀ event ∈
      oneConnection.eventsOn Listener.counting 0 (servedInTwo count), event.breaks = false := by
    decide +kernel
  have hreceived : ∀ count ∈ [36, 46], ServingEvent.received
      (oneConnection.eventsOn Listener.counting 0 (servedInTwo count)) =
        encode spelledRequests := by decide +kernel
  exact ⟨⟨rfl, hcalm count h, hreceived count h⟩, by simp [Listener.HandlesOnly, servedInTwo]⟩

theorem ended_servedInTwo {count : Nat} (h : count ∈ [36, 46]) :
    (oneConnection.run Listener.counting (servedInTwo count)).EndedOn 0 := by
  have hover : ∀ count ∈ [36, 46],
      ((oneConnection.run Listener.counting (servedInTwo count)).connections[0]?).any
        (fun s => !s.isOpen) = true := by decide +kernel
  obtain ⟨s, hs, hopen⟩ := (Option.any_eq_true _ _).mp (hover count h)
  rw [Listener.EndedOn, hs, Option.map_some, Serving.ended_of_not_isOpen (by simpa using hopen)]

theorem fed_readInTwo (count : Nat) :
    (({} : Link).run waitingCalls).Fed (encode spelledAnswers) (readInTwo count) := by
  refine ⟨rfl, by rfl, ?_, ?_⟩
  · simp [Link.Feeds, Link.ReadersStep, readInTwo]
  · simp [LinkEvent.received, readInTwo]

/-- The first call waits for its answer. -/
theorem early_waitingCalls : ∃ c, c.id = 0 ∧ Link.Early (({} : Link).run waitingCalls) 0 c := by
  obtain ⟨c, hc, hcall⟩ := (Option.any_eq_true _ _).mp
    (by decide +kernel : ((({} : Link).run waitingCalls).calls[0]?).any
      (fun c => decide (c.stage.next? = some .collect) && decide (c.id = 0)) = true)
  obtain ⟨hnext, hid⟩ : c.stage.next? = some .collect ∧ c.id = 0 := by simpa using hcall
  have hwaits : c.stage = .waiting := by cases hs : c.stage <;> simp [hs, Stage.next?] at hnext ⊢
  exact ⟨c, hid, hc, .inr hwaits, by rw [hid]; decide +kernel, by decide +kernel⟩

/-- Both streams are torn once inside the escape and once inside the character. -/
theorem pieces_change_nothing_inside_a_character :
    ((({ state := 0, connections := [{}] } : Listener Nat).run Listener.counting
        (servedInTwo 46)).servedOn 0 =
      (({ state := 0, connections := [{}] } : Listener Nat).run Listener.counting
        (servedInTwo 36)).servedOn 0 ∧
      (({ state := 0, connections := [{}] } : Listener Nat).run Listener.counting
        (servedInTwo 46)).repliedOn 0 =
      (({ state := 0, connections := [{}] } : Listener Nat).run Listener.counting
        (servedInTwo 36)).repliedOn 0) ∧
    (∃ steps steps', ((({} : Link).run waitingCalls).run (readInTwo 49 ++ steps')).apart =
      ((({} : Link).run waitingCalls).run (readInTwo 44 ++ steps)).apart) ∧
    ∃ steps o, ((({} : Link).run (waitingCalls ++ readInTwo 49)).run steps).Returns 0 o ∧
      ∀ o', (({} : Link).run (waitingCalls ++ readInTwo 44)).Returns 0 o' → o = o' := by
  refine ⟨?_, ?_, ?_⟩
  · have h := arrives_servedInTwo (by simp : 36 ∈ [36, 46])
    have h' := arrives_servedInTwo (by simp : 46 ∈ [36, 46])
    have hended := ended_servedInTwo (by simp : 36 ∈ [36, 46])
    have hended' := ended_servedInTwo (by simp : 46 ∈ [36, 46])
    have hnotices : (oneConnection.callbacksOn Listener.counting 0 (servedInTwo 46)).map
          Prod.fst =
        (oneConnection.callbacksOn Listener.counting 0 (servedInTwo 36)).map Prod.fst := by
      decide +kernel
    have hcallbacks := (Listener.run_ran h'.fresh h'.alone).determined
      (Listener.run_ran h.fresh h.alone) hnotices
    exact ⟨(pieces_change_nothing.1 Nat Listener.counting _ 0 _ _ h).same hended _ h' hended',
      pieces_change_nothing.2.1 Nat Listener.counting _ 0 _ _ _ h.toBrings h'.toBrings
        hended hended' (congrArg (List.map Prod.snd) hcallbacks)⟩
  · have hends : ∀ count ∈ [44, 49],
        ((({} : Link).run waitingCalls).run (readInTwo count)).incoming.ending = some .closed := by
      decide +kernel
    obtain ⟨steps, -, h, hended⟩ := (pieces_change_nothing.2.2.1 _ _ _ (fed_readInTwo 44)).ends
      _ (hends 44 (by simp))
    obtain ⟨steps', -, h', hended'⟩ := (fed_readInTwo 49).ends (hends 49 (by simp))
    exact ⟨steps, steps', (pieces_change_nothing.2.2.1 _ _ _ h).same hended _ h' hended'⟩
  · have hsame : Link.SameBytes waitingCalls (readInTwo 44) (readInTwo 49) :=
      ⟨by decide, by decide, by decide, by decide, by decide +kernel⟩
    obtain ⟨c, hid, hearly⟩ := early_waitingCalls
    have hsole : ∀ count, Sole c.id 0 (readInTwo count) := by
      intro count
      simp [Sole, readInTwo, LinkEvent.caller?]
    obtain ⟨now, hnow, hkept⟩ := (Option.any_eq_true _ _).mp
      (by decide +kernel : ((({} : Link).run (waitingCalls ++ readInTwo 49)).calls[0]?).any
        (fun c => !c.isGivenUp) = true)
    obtain ⟨steps, o, -, hreturns, hagrees⟩ := (pieces_change_nothing.2.2.2 _ _ _ hsame).returns 0 c
      hearly (hsole 44) (hsole 49) .closed now (by decide +kernel) hnow (by simpa using hkept)
    exact ⟨steps, o, hreturns, hagrees⟩

end GameRelay
