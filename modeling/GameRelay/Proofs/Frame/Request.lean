import GameRelay.Frame.Identity
import GameRelay.Frame.Request
import GameRelay.Proofs.Json.WellFormed
import GameRelay.Proofs.Json.Written
import GameRelay.Proofs.Text.Lines

/-!
# Requests on their way

A request is one line, and is read back from it. So is the identity of a game that
it carries, whatever characters are in its name and its password.
-/

set_option autoImplicit false

namespace GameRelay.Frame

open GameRelay.Json GameRelay.Text

namespace Identity

def row (g : Identity) : Row schema.fields := (g.name, g.password, ())

theorem ofValue_toValue (g : Identity) : ofValue g.toValue = .ok g := by
  have hvalue : schema.ofValue g.toValue = .ok g.row := ofValue_members (by decide) g.row
  rw [ofValue, hvalue]
  rfl

theorem readable_toValue (g : Identity) {room : Nat} (h : 1 < room) :
    Readable room g.toValue := by
  have hkeys : (["Name", "Password"] : List String).Pairwise (· < ·) := by decide
  constructor
  · exact ⟨trivial, trivial, trivial⟩
  · exact ⟨hkeys, trivial, trivial, trivial⟩
  · simp [toValue, Value.depth, Value.depthMembers, h]

end Identity

/-- The characters of a line, with a newline behind them. -/
theorem isLine_ofList {cs : List Char} (h : '\n' ∉ cs) :
    IsLine (encode (String.ofList (cs ++ ['\n']))) := by
  refine ⟨cs.flatMap String.utf8EncodeChar, ?_, ?_⟩
  · rw [← encode_ofList, newline_mem_encode_iff, String.toList_ofList]
    exact h
  · rw [encode_ofList, List.flatMap_append]
    rfl

namespace Request

def row (r : Request) : Row schema.fields := (r.method, r.params, r.id, ())

section
variable {r : Request}

theorem readable_members (hparams : Readable (depthLimit - 1) r.params)
    (hid : Readable (depthLimit - 1) r.id) :
    ∀ member ∈ Row.members schema.fields r.row, Readable (depthLimit - 1) member.2 := by
  have hmethod := readable_text r.method (by decide : 0 < depthLimit - 1)
  have hmembers : Row.members schema.fields r.row =
      [("method", .text r.method), ("params", r.params), ("id", r.id)] := rfl
  rw [hmembers]
  simp only [List.forall_mem_cons]
  exact ⟨hmethod, hparams, hid, by simp⟩

theorem line_eq (r : Request) : r.line = String.ofList
    ('\x7b' :: Value.memberChars (Row.members schema.fields r.row) ++ '\x7d' :: ['\n']) := by
  rw [line, chars, List.append_assoc]
  rfl

/-- A request is read back from its line. -/
theorem parse_line (hparams : Readable (depthLimit - 1) r.params)
    (hid : Readable (depthLimit - 1) r.id) : parse r.line = .ok r := by
  rw [parse, line_eq, parse_members (by decide) r.row (readable_members hparams hid) rfl]
  rfl

/-- Whatever becomes of its parameters, the id of a request is read back. -/
theorem id_of_parse_line {r' : Request} (hid : Readable (depthLimit - 1) r.id)
    (h : parse r.line = .ok r') : r'.id = r.id := by
  rw [parse, line_eq] at h
  obtain ⟨row, hrow, rfl⟩ := ok_of_map h
  exact (agree_of_parse (by decide) hrow).2.2.1 hid

/-- What a request carries is in order, and leaves room for the frame. -/
theorem wellFormed_of_parse {text : String} (h : parse text = .ok r) :
    WellFormed (depthLimit - 1) r.params ∧ WellFormed (depthLimit - 1) r.id := by
  obtain ⟨row, hrow, rfl⟩ := ok_of_map h
  have hfallback : ∀ f ∈ schema.fields, ∀ c ∈ f.fallback,
      WellFormed (depthLimit - 1) (f.kind.value c) := by
    intro f hf c hc
    simp only [schema, List.mem_cons, List.not_mem_nil, or_false] at hf
    rcases hf with rfl | rfl | rfl
    · cases hc
    · obtain rfl := Option.some.inj hc
      exact ⟨trivial, by decide⟩
    · cases hc
  rw [← String.ofList_toList (s := text)] at hrow
  have hmembers := parse_wellFormed hfallback hrow
  obtain ⟨method, params, id, last⟩ := row
  exact ⟨hmembers ("params", params) (.tail _ (.head _)),
    hmembers ("id", id) (.tail _ (.tail _ (.head _)))⟩

/-- A request that was cut is no other request. -/
theorem parse_of_isPrefix {first whole : String} {r r' : Request}
    (h : first.toList <+: whole.toList) (hfirst : parse first = .ok r)
    (hwhole : parse whole = .ok r') : r = r' := by
  obtain ⟨row, hrow, rfl⟩ := ok_of_map hfirst
  obtain ⟨row', hrow', rfl⟩ := ok_of_map hwhole
  exact congrArg ofRow (Schema.parse_of_isPrefix h hrow hrow')

theorem isLine_line (hparams : r.params.FloatFree) (hid : r.id.FloatFree) :
    IsLine (encode r.line) := by
  have hmembers := newline_not_mem_chars
    (.object [("method", .text r.method), ("params", r.params), ("id", r.id)])
    ⟨trivial, hparams, hid, trivial⟩
  exact isLine_ofList hmembers

end

/-- The request of a call about a game is read back, and so is the game. -/
theorem parse_game (method : String) (g : Identity) (id : UInt64) :
    parse (call method g.toValue id).line = .ok (call method g.toValue id) := by
  apply parse_line
  · have hg := g.readable_toValue (by decide : 1 < depthLimit - 2)
    refine ⟨⟨hg.free, trivial⟩, ⟨hg.ordered, trivial⟩, ?_⟩
    have hdepth := hg.depth
    simp only [call, Value.depth, Value.depthItems]
    omega
  · exact readable_int _ (by decide)

theorem isLine_game (method : String) (g : Identity) (id : UInt64) :
    IsLine (encode (call method g.toValue id).line) := by
  have hg := g.readable_toValue (by decide : 1 < depthLimit)
  exact isLine_line ⟨hg.free, trivial⟩ trivial

end Request

end GameRelay.Frame
