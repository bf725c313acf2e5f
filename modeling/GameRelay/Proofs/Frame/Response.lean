import GameRelay.Frame.Response
import GameRelay.Proofs.Frame.Request

/-!
# Responses on their way

A response without floating-point numbers is one line and is read back from it,
whatever the text of its error. Only one response looks like the line that stands
in for a response that has no text.
-/

set_option autoImplicit false

namespace GameRelay.Frame.Response

open GameRelay.Json GameRelay.Text

def row (r : Response) : Row schema.fields := (r.id, r.result, r.error, ())

theorem members_row (r : Response) : Row.members schema.fields r.row =
    [("id", r.id), ("result", r.result), ("error", r.errorValue)] := by
  obtain ⟨id, result, error⟩ := r
  cases error <;> rfl

theorem line_eq (r : Response) : r.line = String.ofList
    ('\x7b' :: Value.memberChars (Row.members schema.fields r.row) ++ '\x7d' :: ['\n']) := by
  rw [line, chars, members_row, List.append_assoc]
  rfl

theorem readable_errorValue (r : Response) : Readable (depthLimit - 1) r.errorValue := by
  unfold errorValue
  split
  · exact readable_text _ (by decide)
  · exact ⟨trivial, trivial, by decide⟩

section
variable {r : Response} (hid : Readable (depthLimit - 1) r.id)
  (hresult : Readable (depthLimit - 1) r.result)
include hid hresult

/-- A response is read back from its line. -/
theorem parse_line : parse r.line = .ok r := by
  have hmembers : ∀ member ∈ Row.members schema.fields r.row,
      Readable (depthLimit - 1) member.2 := by
    rw [members_row]
    simp only [List.forall_mem_cons]
    exact ⟨hid, hresult, r.readable_errorValue, by simp⟩
  rw [parse, line_eq, parse_members (by decide) r.row hmembers rfl]
  rfl

theorem isLine_line : IsLine (encode r.line) := by
  have hmembers := newline_not_mem_chars
    (.object [("id", r.id), ("result", r.result), ("error", r.errorValue)])
    ⟨hid.free, hresult.free, r.readable_errorValue.free, trivial⟩
  exact isLine_ofList hmembers

end

/-- A response that was cut is no other response. -/
theorem parse_of_isPrefix {first whole : String} {r r' : Response}
    (h : first.toList <+: whole.toList) (hfirst : parse first = .ok r)
    (hwhole : parse whole = .ok r') : r = r' := by
  obtain ⟨row, hrow, rfl⟩ := ok_of_map hfirst
  obtain ⟨row', hrow', rfl⟩ := ok_of_map hwhole
  exact congrArg ofRow (Schema.parse_of_isPrefix h hrow hrow')

def fallbackLine : String :=
  "\x7b\"id\":null,\"result\":null,\"error\":\"serialization failed\"\x7d\n"

def fallback : Response := failed .null "serialization failed"

theorem line_fallback : fallback.line = fallbackLine := by decide

structure Carried (r : Response) : Prop where
  isLine : IsLine (encode r.line)
  genuine : r.line = fallbackLine → r = fallback
  parse : Response.parse r.line = .ok r

theorem carried_of_readable {r : Response} (hid : Readable (depthLimit - 1) r.id)
    (hresult : Readable (depthLimit - 1) r.result) : r.Carried where
  isLine := isLine_line hid hresult
  parse := parse_line hid hresult
  genuine hline := by
    have hnull : Readable (depthLimit - 1) .null := ⟨trivial, trivial, by decide⟩
    have hfallback : parse fallback.line = .ok fallback := parse_line hnull hnull
    rw [line_fallback, ← hline, parse_line hid hresult] at hfallback
    exact Except.ok.inj hfallback

end GameRelay.Frame.Response
