import GameRelay.Proofs.Frame.Request
import GameRelay.Proofs.Link.Delivery
import GameRelay.Method
import Mathlib.Data.List.Nodup

/-!
# What the relay receives

The bytes that are written are those of the queued lines, in the order of the
queue. The relay finds these lines again where it splits what it has received, and
finds in each of them what its call was given.
-/

set_option autoImplicit false

namespace GameRelay.Outbound

open GameRelay.Frame GameRelay.Json GameRelay.Text

namespace Link

def gameArgument (g : Identity) : Argument := .value g.toValue

/-- The line of a queued call about a game. -/
theorem line_of_queued (events : List LinkEvent) {k : Nat} {c : Call} {g : Identity}
    (hk : (({} : Link).run events).calls[k]? = some c)
    (hqueued : k ∈ (({} : Link).run events).queued) (hgame : c.argument = gameArgument g) :
    c.line = (Request.call c.method g.toValue c.id).line := by
  have hcounted := run_counted events k c hk
  have hlines : (({} : Link).run events).queued.count k ≠ 0 := by
    have := List.count_pos_iff.mpr hqueued
    omega
  have hline := hcounted.line (.inr (hcounted.registered hlines))
  have hargument : c.argument.callLine? c.method c.id = some c.line := hline
  rw [hgame] at hargument
  exact (Option.some.inj hargument).symm

structure Wire (l : Link) (games : List Identity) : Prop where
  written : l.written <+: l.queued.flatMap l.lineBytes
  /-- The newline of a line is its last byte. -/
  ended : ∀ k ∈ l.queued, IsLine (l.lineBytes k)
  split : lines (l.queued.flatMap l.lineBytes) = l.queued.map l.lineBytes
  /-- The lines that have been received whole, at any moment. -/
  received : (({} : Splitter).feed l.written).2 <+: l.queued.map l.lineBytes
  /-- No two of them are of one call, or have one id. -/
  once : (l.queued.map fun k => (l.calls[k]?).map Call.id).Nodup
  /-- What each line says. -/
  read : ∀ k ∈ l.queued, ∃ c g r, l.calls[k]? = some c ∧ games[k]? = some g ∧
    decodeLine (l.lineBytes k) = .ok c.line ∧ Request.parse c.line = .ok r ∧
    r.method = c.method ∧ r.id.word? = some c.id ∧ r.params = .list [r.argument] ∧
    Identity.ofValue r.argument = .ok g

theorem lineBytes_eq {l : Link} {k : Nat} {c : Call} (hk : l.calls[k]? = some c) :
    l.lineBytes k = encode c.line := by
  rw [lineBytes, hk]

theorem queued_nodup (events : List LinkEvent) : (({} : Link).run events).queued.Nodup := by
  rw [List.nodup_iff_count_le_one]
  intro k
  by_cases hk : k < (({} : Link).run events).calls.length
  · have hcounted := run_counted events k _ (List.getElem?_eq_getElem hk)
    exact lines?_le_one hcounted.lines
  · have hnone : k ∉ (({} : Link).run events).queued := fun h =>
      hk ((run_tidy fresh_tidy events).queued k h)
    rw [List.count_eq_zero.mpr hnone]
    exact Nat.zero_le 1

theorem run_wire (events : List LinkEvent) (games : List Identity)
    (hlen : (({} : Link).run events).calls.length < UInt64.size)
    (hgames : (({} : Link).run events).calls.map Call.argument = games.map gameArgument) :
    (({} : Link).run events).Wire games := by
  have h := run_tidy fresh_tidy events
  have hline := fun k c g => line_of_queued events (k := k) (c := c) (g := g)
  have honce := queued_nodup events
  generalize ({} : Link).run events = l at h hlen hgames hline honce
  have hcall : ∀ k ∈ l.queued, ∃ c g, l.calls[k]? = some c ∧ games[k]? = some g ∧
      c.line = (Request.call c.method g.toValue c.id).line := by
    intro k hk
    have hc := List.getElem?_eq_getElem (h.queued k hk)
    have hargument := congrArg (fun arguments => arguments[k]?) hgames
    simp only [List.getElem?_map, hc, Option.map_some] at hargument
    obtain ⟨g, hg, hargument⟩ := Option.map_eq_some_iff.mp hargument.symm
    exact ⟨_, g, hc, hg, hline k _ g hc hk hargument.symm⟩
  have hended : ∀ k ∈ l.queued, IsLine (l.lineBytes k) := by
    intro k hk
    obtain ⟨c, g, hc, -, hcline⟩ := hcall k hk
    rw [lineBytes_eq hc, hcline]
    exact Request.isLine_game c.method g c.id
  have hsplit : lines (l.queued.flatMap l.lineBytes) = l.queued.map l.lineBytes := by
    rw [List.flatMap_def]
    apply lines_of_flatten
    intro line hmem
    obtain ⟨k, hk, rfl⟩ := List.mem_map.mp hmem
    exact hended k hk
  constructor
  case written => exact ⟨l.unwritten, h.bytes⟩
  case ended => exact hended
  case split => exact hsplit
  case received =>
    rw [← hsplit, ← h.bytes]
    exact Splitter.feed_isPrefix l.written l.unwritten
  case once =>
    apply honce.map_on
    intro j hj k hk hid
    obtain ⟨cj, -, hcj, -⟩ := hcall j hj
    obtain ⟨ck, -, hck, -⟩ := hcall k hk
    rw [hcj, hck] at hid
    exact h.numbered.number_eq hlen hcj hck (Option.some.inj hid)
  case read =>
    intro k hk
    obtain ⟨c, g, hc, hg, hcline⟩ := hcall k hk
    refine ⟨c, g, Request.call c.method g.toValue c.id, hc, hg, ?_, ?_, rfl, ?_, rfl, ?_⟩
    · rw [lineBytes_eq hc]
      exact decodeLine_encode c.line
    · rw [hcline]
      exact Request.parse_game c.method g c.id
    · exact Value.word?_ofUInt64 c.id
    · exact g.ofValue_toValue

def twoGames : List LinkEvent :=
  [.start Method.newGame (gameArgument ⟨"a\n\"", "\\\x01é"⟩) .boolean,
    .start "m\n" (gameArgument (.named "")) .boolean, .call 0 .register, .call 1 .register,
    .call 1 .queue, .call 0 .queue, .call 1 .abandon, .transport (.write 90)]

theorem wire_of_twoGames : (({} : Link).run twoGames).queued = [1, 0] ∧
    (({} : Link).run twoGames).Wire [⟨"a\n\"", "\\\x01é"⟩, .named ""] :=
  ⟨by decide +kernel, run_wire twoGames _ (by decide +kernel) rfl⟩

end Link

end GameRelay.Outbound
