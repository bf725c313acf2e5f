import GameRelay.Proofs.Inbound.Cut
import GameRelay.Proofs.Inbound.Reply
import GameRelay.Proofs.Inbound.Service
import GameRelay.Proofs.Link.Cut

/-!
# Streams that are cut, in both directions

Wherever a stream of frames is cut, no message changes its meaning: requests are
answered as far as they arrived, and calls return what they would have returned or
that they were disconnected.
-/

set_option autoImplicit false

namespace GameRelay

open GameRelay.Frame GameRelay.Inbound GameRelay.Json GameRelay.Outbound GameRelay.Text

/-- The cut may be inside a line or inside a character. On the way in, what was handled and
replied comes first in what is handled and replied of the whole stream. On the way out, a call
that waited before anything was heard agrees, and it does return. -/
theorem cut_keeps_meaning :
    (∀ (σ : Type) (consumer : Consumer σ) (l : Listener σ) (c : Nat)
      (events cutEvents : List ListenerEvent), l.CutShort consumer c events cutEvents →
      ∀ served s, (l.run consumer events).connections[c]? = some served →
        served.phase = .ended → (l.run consumer cutEvents).connections[c]? = some s →
        (l.run consumer cutEvents).heardOn c <+: (l.run consumer events).heardOn c ∧
          s.written <+: served.written) ∧
    ∀ setup events cutEvents : List LinkEvent, Link.CutShort setup events cutEvents →
      ∀ k c, Link.Early (({} : Link).run setup) k c →
        Sole c.id k events → Sole c.id k cutEvents →
        (∀ o o', (({} : Link).run (setup ++ events)).Returns k o →
          (({} : Link).run (setup ++ cutEvents)).Returns k o' →
          o' = o ∨ o' = .error .disconnected) ∧
        ∀ now, (({} : Link).run (setup ++ cutEvents)).calls[k]? = some now →
          now.isGivenUp = false →
          (({} : Link).run (setup ++ cutEvents)).incoming.ending.isSome = true →
          ∃ steps o', (∀ event ∈ steps, Link.OwnStep k event) ∧
            ((({} : Link).run (setup ++ cutEvents)).run steps).Returns k o' ∧
            ∀ o, (({} : Link).run (setup ++ events)).Returns k o →
              o' = o ∨ o' = .error .disconnected := by
  constructor
  · intro σ consumer l c events cutEvents h served s hserved hended hs
    exact h.isPrefix hserved hended hs
  · intro setup events cutEvents h k c hearly hsole hcutSole
    constructor
    · intro o o' ho ho'
      exact h.agrees hearly hsole hcutSole ho ho'
    · intro now hnow hgiven hended
      exact h.returns hearly hsole hcutSole hended hnow hgiven

def twoRequests : String :=
  "[\"ClientRPCMethods.Status\",null,1]\n[\"ClientRPCMethods.Status\",null,\"é\"]\n"

def servedUpTo (count : Nat) : List ListenerEvent :=
  [.arrive 0 ((encode twoRequests).take count), .finish 0 .closed, .read 0, .handle 0, .write 0,
    .read 0, .handle 0, .write 0, .read 0]

def twoCalls : List LinkEvent :=
  [.start "new_game" (.value .null) .boolean, .start "new_game" (.value .null) .boolean,
    .call 0 .register, .call 1 .register, .call 0 .queue]

def twoAnswers : String :=
  "\x7b\"id\":1,\"result\":false\x7d\n\x7b\"id\":0,\"result\":true\x7d\n"

def readUpTo (count : Nat) : List LinkEvent :=
  [.transport (.arrive ((encode twoAnswers).take count)), .transport (.finish .closed),
    .transport .read, .transport .hand, .transport .read, .transport .hand, .transport .read,
    .call 0 .collect, .call 0 .leave]

/-- The requests are cut inside the last character, the answers before the second one is whole. -/
theorem cut_keeps_meaning_inside_a_character :
    (∃ served s,
      (({ state := 0, connections := [{}] } : Listener Nat).run Listener.counting
        (servedUpTo 73)).connections[0]? = some served ∧
      (({ state := 0, connections := [{}] } : Listener Nat).run Listener.counting
        (servedUpTo 69)).connections[0]? = some s ∧ s.written <+: served.written) ∧
    ∃ o steps o', (({} : Link).run (twoCalls ++ readUpTo 47)).Returns 0 o ∧
      ((({} : Link).run (twoCalls ++ readUpTo 30)).run steps).Returns 0 o' ∧
      (o' = o ∨ o' = .error .disconnected) := by
  constructor
  · have hrequests : ∀ line ∈ lines (ServingEvent.received
        (({ state := 0, connections := [{}] } : Listener Nat).eventsOn Listener.counting 0
          (servedUpTo 73))), (requestOf? line).isSome = true := by decide +kernel
    have hcut : ({ state := 0, connections := [{}] } : Listener Nat).CutShort Listener.counting
        0 (servedUpTo 73) (servedUpTo 69) :=
      ⟨rfl, by simp [Listener.HandlesOnly, servedUpTo], by simp [Listener.HandlesOnly, servedUpTo],
        by decide +kernel, fun line hline => Option.isSome_iff_exists.mp (hrequests line hline),
        by decide +kernel⟩
    obtain ⟨served, hserved, hended⟩ := (Option.any_eq_true _ _).mp
      (by decide +kernel : ((({ state := 0, connections := [{}] } : Listener Nat).run
        Listener.counting (servedUpTo 73)).connections[0]?).any (fun s => !s.isOpen) = true)
    obtain ⟨s, hs⟩ := Option.isSome_iff_exists.mp
      (by decide +kernel : ((({ state := 0, connections := [{}] } : Listener Nat).run
        Listener.counting (servedUpTo 69)).connections[0]?).isSome = true)
    exact ⟨served, s, hserved, hs,
      (cut_keeps_meaning.1 Nat Listener.counting _ 0 _ _ hcut served s hserved
        (Serving.ended_of_not_isOpen (by simpa using hended)) hs).2⟩
  · have hresponses : ∀ line ∈ lines (LinkEvent.received (twoCalls ++ readUpTo 47)),
        (responseOf? line).isSome = true := by decide +kernel
    have hcut : Link.CutShort twoCalls (readUpTo 47) (readUpTo 30) :=
      ⟨by decide, by decide, by decide,
        fun line hline => Option.isSome_iff_exists.mp (hresponses line hline), by decide +kernel⟩
    obtain ⟨c, hc, hcall⟩ := (Option.any_eq_true _ _).mp
      (by decide +kernel : ((({} : Link).run twoCalls).calls[0]?).any
        (fun c => decide (c.stage.next? = some .collect) && decide (c.id = 0)) = true)
    obtain ⟨hnext, hid⟩ : c.stage.next? = some .collect ∧ c.id = 0 := by simpa using hcall
    have hwaits : c.stage = .waiting := by cases hs : c.stage <;> simp [hs, Stage.next?] at hnext ⊢
    have hearly : Link.Early (({} : Link).run twoCalls) 0 c :=
      ⟨hc, .inr hwaits, by rw [hid]; decide +kernel, by decide +kernel⟩
    have hsole : Sole c.id 0 (readUpTo 47) := by simp [Sole, readUpTo, LinkEvent.caller?]
    have hcutSole : Sole c.id 0 (readUpTo 30) := by simp [Sole, readUpTo, LinkEvent.caller?]
    obtain ⟨last, hlast, hover⟩ := (Option.any_eq_true _ _).mp
      (by decide +kernel : ((({} : Link).run (twoCalls ++ readUpTo 47)).calls[0]?).any
        (fun c => c.isOver && !c.isGivenUp) = true)
    obtain ⟨hover, hgiven⟩ : last.isOver = true ∧ last.isGivenUp = false := by simpa using hover
    obtain ⟨o, ho⟩ := Call.outcome_of_isOver hover hgiven
    obtain ⟨now, hnow, hkept⟩ := (Option.any_eq_true _ _).mp
      (by decide +kernel : ((({} : Link).run (twoCalls ++ readUpTo 30)).calls[0]?).any
        (fun c => !c.isGivenUp) = true)
    obtain ⟨steps, o', -, hreturns, hagrees⟩ :=
      (cut_keeps_meaning.2 _ _ _ hcut 0 c hearly hsole hcutSole).2 now hnow (by simpa using hkept)
        (by decide +kernel)
    exact ⟨o, steps, o', ⟨last, hlast, ho⟩, hreturns, hagrees o ⟨last, hlast, ho⟩⟩

end GameRelay
