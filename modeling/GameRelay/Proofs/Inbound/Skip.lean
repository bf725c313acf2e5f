import GameRelay.Proofs.Inbound.Cut
import GameRelay.Proofs.Inbound.Independence

/-!
# Lines that are passed over

A line that is text but no request leaves its connection as it is, and no other
request misses its answer for it: without the line the callbacks are the same, and
so are the replies. A line that is not text is not passed over. It ends its
connection, and the requests behind it get no answer.
-/

set_option autoImplicit false

namespace GameRelay.Text

/-! ## A line that is taken out of a stream -/

theorem lines_of_cons {bytes line : List UInt8} {after : List (List UInt8)}
    (h : lines bytes = line :: after) :
    lines after.flatten = after ∧ (after ≠ [] → IsLine line) := by
  induction bytes generalizing line with
  | nil => simp [lines] at h
  | cons byte rest ih =>
    rw [lines] at h
    split at h
    · rename_i hbyte
      obtain ⟨rfl, rfl⟩ := List.cons.inj h
      exact ⟨by rw [lines_flatten], fun _ => ⟨[], by simp, by rw [hbyte, List.nil_append]⟩⟩
    · rename_i hbyte
      cases hrest : lines rest with
      | nil =>
        rw [hrest] at h
        obtain ⟨rfl, rfl⟩ := List.cons.inj h
        exact ⟨rfl, fun hne => absurd rfl hne⟩
      | cons next more =>
        rw [hrest] at h
        obtain ⟨rfl, rfl⟩ := List.cons.inj h
        obtain ⟨hflat, hline⟩ := ih hrest
        refine ⟨hflat, fun hne => ?_⟩
        obtain ⟨body, hbody, rfl⟩ := hline hne
        exact ⟨byte :: body, by simp [Ne.symm hbyte, hbody], rfl⟩

/-- The other lines stay what they are. -/
theorem lines_without {bytes line : List UInt8} {before after : List (List UInt8)}
    (h : lines bytes = before ++ line :: after) :
    lines (before ++ after).flatten = before ++ after := by
  induction before generalizing bytes with
  | nil => exact (lines_of_cons h).1
  | cons first before ih =>
    obtain ⟨hflat, hline⟩ := lines_of_cons h
    obtain ⟨body, hbody, rfl⟩ := hline (by simp)
    rw [List.cons_append, List.flatten_cons, List.append_assoc, List.singleton_append,
      lines_concat_newline hbody, ih hflat]

end GameRelay.Text

namespace GameRelay.Inbound

open GameRelay.Frame GameRelay.Json GameRelay.Text

variable {σ : Type}

/-! ## Serving without the line -/

theorem incoming_of_noRequest {line : List UInt8} (hline : requestOf? line = none)
    (htext : ∃ text, decodeLine line = .ok text) :
    Incoming.ofLine line = .blank ∨ ∃ e, Incoming.ofLine line = .notRequest e := by
  obtain ⟨text, htext⟩ := htext
  rcases incoming_cases htext with ⟨hblank, -⟩ | ⟨e, he, -⟩ | ⟨r, -, hsome⟩
  · exact .inl hblank
  · exact .inr ⟨e, he⟩
  · simp [hline] at hsome

/-- The consumer is left in the same state, so that the lines behind have the same answers. -/
theorem serveLines_without (consumer : Consumer σ) (state : σ) (before after : List (List UInt8))
    {line : List UInt8} (hline : requestOf? line = none)
    (htext : ∃ text, decodeLine line = .ok text) :
    (serveLines consumer state (before ++ line :: after)).responses =
        (serveLines consumer state (before ++ after)).responses ∧
      (serveLines consumer state (before ++ line :: after)).notices =
        (serveLines consumer state (before ++ after)).notices := by
  induction before generalizing state with
  | nil =>
    simp only [List.nil_append, serveLines]
    rcases incoming_of_noRequest hline htext with hblank | ⟨e, he⟩
    · simp only [hblank, and_self]
    · simp only [he, ServedStream.reporting, and_self]
  | cons first before ih =>
    rw [List.cons_append, List.cons_append]
    simp only [serveLines]
    cases Incoming.ofLine first with
    | blank => exact ih state
    | notRequest e => exact ih state
    | malformed what => exact ⟨rfl, rfl⟩
    | request r =>
      obtain ⟨hresponses, hnotices⟩ := ih (respond consumer state r).state
      simp only [ServedStream.after, hresponses, hnotices, and_self]

/-! ## Two connections -/

namespace Listener

/-- Two runs in which a connection has the consumer for itself and nothing disturbs it. The
stream of the second one lacks a line. -/
structure Without (consumer : Consumer σ) (l : Listener σ) (c : Nat)
    (events fewer : List ListenerEvent) (before : List (List UInt8)) (line : List UInt8)
    (after : List (List UInt8)) : Prop where
  fresh : l.connections[c]? = some {}
  alone : HandlesOnly c events
  fewerAlone : HandlesOnly c fewer
  calm : ∀ e ∈ l.eventsOn consumer c events, e.breaks = false
  fewerCalm : ∀ e ∈ l.eventsOn consumer c fewer, e.breaks = false
  stream : lines (ServingEvent.received (l.eventsOn consumer c events)) =
    before ++ line :: after
  removed : ServingEvent.received (l.eventsOn consumer c fewer) = (before ++ after).flatten

variable {consumer : Consumer σ} {l : Listener σ} {c : Nat} {s : Serving}

/-- A connection that has the consumer for itself comes to what serving its lines in one go
does. -/
theorem yields_of_handlesOnly (hfresh : l.connections[c]? = some {}) {events : List ListenerEvent}
    (honly : HandlesOnly c events) (hcalm : ∀ e ∈ l.eventsOn consumer c events, e.breaks = false)
    (hs : (l.run consumer events).connections[c]? = some s) (hended : s.phase = .ended) :
    Yields consumer l.state
      (lines (ServingEvent.received (l.eventsOn consumer c events)))
      (l.run consumer events).state s.written
      ((l.callbacksOn consumer c events).map Prod.fst) := by
  obtain rfl := Option.some.inj ((run_connection hfresh events).symm.trans hs)
  obtain ⟨_, hfollows⟩ := follows_of_handlesOnly consumer hfresh honly True fun _ => hcalm
  exact hfollows.complete trivial hended

/-- Without the line the connection has the same callbacks, and the same replies. -/
theorem Without.same {events fewer : List ListenerEvent} {before after : List (List UInt8)}
    {line : List UInt8} (h : l.Without consumer c events fewer before line after)
    (hline : requestOf? line = none) (htext : ∃ text, decodeLine line = .ok text)
    {served other : Serving} (hserved : (l.run consumer events).connections[c]? = some served)
    (hended : served.phase = .ended)
    (hother : (l.run consumer fewer).connections[c]? = some other)
    (hotherEnded : other.phase = .ended) :
    (l.run consumer events).heardOn c = (l.run consumer fewer).heardOn c ∧
      served.written = other.written := by
  have hwith := yields_of_handlesOnly h.fresh h.alone h.calm hserved hended
  have hwithout := yields_of_handlesOnly h.fresh h.fewerAlone h.fewerCalm hother hotherEnded
  rw [h.stream] at hwith
  rw [h.removed, lines_without h.stream] at hwithout
  obtain ⟨hresponses, hnotices⟩ := serveLines_without consumer l.state before after hline htext
  constructor
  · rw [run_heardOn h.fresh, run_heardOn h.fresh]
    exact congrArg _ (hwith.notices.symm.trans (hnotices.trans hwithout.notices))
  · exact hwith.responses.symm.trans (hresponses.trans hwithout.responses)

end Listener

/-! ## Which lines are passed over -/

structure PassedOver (line : List UInt8) : Prop where
  /-- The connection goes on to the next line. -/
  goesOn : ∀ (s : Serving) (stream : Stream), s.phase = .reading →
    s.stream.read = (.line line, stream) → s.read.1 = { s with stream }
  unmissed : ∀ (σ : Type) (consumer : Consumer σ) (l : Listener σ) (c : Nat)
    (events fewer : List ListenerEvent) (before after : List (List UInt8)),
    l.Without consumer c events fewer before line after → ∀ served other,
    (l.run consumer events).connections[c]? = some served → served.phase = .ended →
    (l.run consumer fewer).connections[c]? = some other → other.phase = .ended →
    (l.run consumer events).heardOn c = (l.run consumer fewer).heardOn c ∧
      served.written = other.written

def Serving.before (line : List UInt8) : Serving := { stream := { ready := [line] } }

theorem read_of_noRequest {line : List UInt8} (hline : requestOf? line = none)
    (htext : ∃ text, decodeLine line = .ok text) {s : Serving} {stream : Stream}
    (hphase : s.phase = .reading) (hread : s.stream.read = (.line line, stream)) :
    s.read.1 = { s with stream } := by
  rcases incoming_of_noRequest hline htext with hblank | ⟨e, he⟩
  · simp only [Serving.read, hphase, hread, hblank]
  · simp only [Serving.read, hphase, hread, he]

/-- A request is answered, and a line that is not text ends the connection. -/
theorem phase_of_read {line : List UInt8}
    (h : requestOf? line ≠ none ∨ ∀ text, decodeLine line ≠ .ok text) :
    (Serving.before line).read.1.phase ≠ .reading := by
  simp only [Serving.before, Serving.read, Stream.read]
  cases hincoming : Incoming.ofLine line with
  | request r => cases hcall : Call.ofRequest r <;> simp [hcall]
  | malformed what => simp
  | blank | notRequest =>
    have hsome : ∃ text, decodeLine line = .ok text := text_of_incoming (by simp [hincoming])
    obtain ⟨text, htext⟩ := hsome
    have hline := h.resolve_right fun hno => hno text htext
    rcases incoming_cases htext with ⟨-, hnone⟩ | ⟨-, -, hnone⟩ | ⟨r, hr, -⟩
    · exact absurd hnone hline
    · exact absurd hnone hline
    · simp [hincoming] at hr

theorem text_of_passedOver {line : List UInt8} (h : PassedOver line) :
    requestOf? line = none ∧ ∃ text, decodeLine line = .ok text := by
  have hphase : (Serving.before line).read.1.phase = .reading := by
    rw [h.goesOn (Serving.before line) {} rfl rfl]
    rfl
  by_contra hno
  apply phase_of_read _ hphase
  by_cases hline : requestOf? line = none
  · exact .inr fun text htext => hno ⟨hline, text, htext⟩
  · exact .inl hline

/-- The lines that are passed over are those that are text and no request. -/
theorem passedOver_iff (line : List UInt8) :
    PassedOver line ↔ requestOf? line = none ∧ ∃ text, decodeLine line = .ok text := by
  constructor
  · exact text_of_passedOver
  · rintro ⟨hline, htext⟩
    constructor
    · intro s stream hphase hread
      exact read_of_noRequest hline htext hphase hread
    · intro σ consumer l c events fewer before after h served other hserved hended hother
        hotherEnded
      exact h.same hline htext hserved hended hother hotherEnded

def strayByte : List UInt8 := [0xff, newline]

def statusLine : List UInt8 := encode "[\"ClientRPCMethods.Status\",null,1]\n"

def servedWhole (bytes : List UInt8) : List ListenerEvent :=
  [.arrive 0 bytes, .finish 0 .closed, .read 0, .handle 0, .write 0, .read 0]

/-- It ends its connection, and the status request behind it misses its answer. -/
theorem strayByte_not_passedOver : requestOf? strayByte = none ∧ IsLine strayByte ∧
    (Serving.before strayByte).read.1.isOpen = false ∧
    lines (strayByte ++ statusLine) = [strayByte, statusLine] ∧
    ((Listener.opened 0).run Listener.counting
      (.accept :: servedWhole (strayByte ++ statusLine))).connections.map
        (fun s => s.written.length) = [0] ∧
    ((Listener.opened 0).run Listener.counting
      (.accept :: servedWhole statusLine)).connections.map (fun s => s.written.length) = [1] ∧
    ¬ PassedOver strayByte := by
  refine ⟨by decide +kernel, ⟨[0xff], by decide, rfl⟩, by decide +kernel, by decide +kernel,
    by decide +kernel, by decide +kernel, ?_⟩
  intro h
  obtain ⟨-, text, htext⟩ := text_of_passedOver h
  have hmalformed : (decodeLine strayByte).toOption = none := by decide +kernel
  simp [htext, Except.toOption] at hmalformed

end GameRelay.Inbound
