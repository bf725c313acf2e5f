import GameRelay.Proofs.Text.Encoding

/-!
# Lines and their pieces

Bytes that arrive in pieces are cut into the same lines as the whole stream. A
stream that was put together from lines falls into these lines again, and every
line of a text is a text.
-/

set_option autoImplicit false

namespace GameRelay.Text

/-- Bytes without a newline lengthen the first line of what follows them. -/
theorem lines_append_of_not_mem {bytes : List UInt8} (h : newline ∉ bytes) (hne : bytes ≠ [])
    (rest : List UInt8) :
    lines (bytes ++ rest) = match lines rest with
      | [] => [bytes]
      | line :: more => (bytes ++ line) :: more := by
  induction bytes with
  | nil => exact absurd rfl hne
  | cons byte bytes ih =>
    have hbyte : byte ≠ newline := fun hb => h (by simp [hb])
    rw [List.cons_append, lines, if_neg hbyte]
    by_cases hnil : bytes = []
    · subst hnil
      rfl
    · rw [ih (fun hmem => h (List.mem_cons_of_mem _ hmem)) hnil]
      split <;> rename_i hrest <;> split at hrest <;> simp_all

theorem lines_of_not_mem {bytes : List UInt8} (h : newline ∉ bytes) (hne : bytes ≠ []) :
    lines bytes = [bytes] := by
  simpa [lines] using lines_append_of_not_mem h hne []

/-- A line that ends is split off. -/
theorem lines_concat_newline {bytes : List UInt8} (h : newline ∉ bytes) (rest : List UInt8) :
    lines (bytes ++ newline :: rest) = (bytes ++ [newline]) :: lines rest := by
  by_cases hnil : bytes = []
  · simp [hnil, lines]
  · simp [lines_append_of_not_mem h hnil, lines]

def IsLine (line : List UInt8) : Prop := ∃ body, newline ∉ body ∧ line = body ++ [newline]

/-- Lines that were put together are found again. -/
theorem lines_flatten_append {parts : List (List UInt8)} (h : ∀ line ∈ parts, IsLine line)
    (rest : List UInt8) : lines (parts.flatten ++ rest) = parts ++ lines rest := by
  induction parts with
  | nil => rfl
  | cons line parts ih =>
    obtain ⟨body, hbody, hline⟩ := h line List.mem_cons_self
    rw [List.flatten_cons, hline, List.append_assoc, List.append_assoc, List.singleton_append,
      lines_concat_newline hbody, ih fun l hl => h l (List.mem_cons_of_mem _ hl)]
    rfl

theorem lines_of_flatten {parts : List (List UInt8)} (h : ∀ line ∈ parts, IsLine line) :
    lines parts.flatten = parts := by
  simpa [lines] using lines_flatten_append h []

/-! ## Lines of a text -/

theorem lines_flatMap (cs : List Char) : ∃ pieces : List (List Char),
    lines (cs.flatMap String.utf8EncodeChar) =
      pieces.map fun piece => piece.flatMap String.utf8EncodeChar := by
  induction cs with
  | nil => exact ⟨[], rfl⟩
  | cons c cs ih =>
    obtain ⟨pieces, hpieces⟩ := ih
    rw [List.flatMap_cons]
    by_cases hc : c = '\n'
    · refine ⟨['\n'] :: pieces, ?_⟩
      rw [hc, utf8EncodeChar_newline, List.singleton_append, lines, if_pos rfl, hpieces]
      rfl
    · have hnewline : newline ∉ String.utf8EncodeChar c := fun h =>
        hc (newline_mem_utf8EncodeChar h)
      rw [lines_append_of_not_mem hnewline String.utf8EncodeChar_ne_nil, hpieces]
      cases pieces with
      | nil => exact ⟨[[c]], by simp⟩
      | cons piece pieces => exact ⟨(c :: piece) :: pieces, by simp⟩

/-- Every line of a text is a text. -/
theorem decodeLine_of_mem_lines {text : String} {line : List UInt8}
    (h : line ∈ lines (encode text)) : ∃ piece, decodeLine line = .ok piece := by
  obtain ⟨pieces, hpieces⟩ := lines_flatMap text.toList
  rw [encode_eq, hpieces] at h
  obtain ⟨piece, -, rfl⟩ := List.mem_map.mp h
  exact ⟨String.ofList piece, encode_ofList piece ▸ decodeLine_encode _⟩

/-! ## Lines of a stream in pieces -/

namespace Splitter

/-- The lines that a splitter completes, with its unfinished one, are those of the bytes. -/
theorem feed_lines (s : Splitter) (h : newline ∉ s.partialLine) (bytes : List UInt8) :
    (s.feed bytes).2 ++ (s.feed bytes).1.finish = lines (s.partialLine ++ bytes) := by
  induction bytes generalizing s with
  | nil =>
    rw [List.append_nil, feed, List.nil_append, finish]
    by_cases hnil : s.partialLine = []
    · rw [if_pos hnil, hnil]
      rfl
    · rw [if_neg hnil, lines_of_not_mem h hnil]
  | cons byte rest ih =>
    rw [feed]
    by_cases hbyte : byte = newline
    · have hpush : s.push byte = (⟨[]⟩, some (s.partialLine ++ [newline])) := by
        simp [push, hbyte]
      rw [hpush, hbyte, lines_concat_newline h]
      simpa using ih ⟨[]⟩ (by simp)
    · have hpush : s.push byte = (⟨s.partialLine ++ [byte]⟩, none) := by simp [push, hbyte]
      rw [hpush]
      simpa using ih ⟨s.partialLine ++ [byte]⟩ (by simp [h, Ne.symm hbyte])

/-- The lines that have been completed are the first ones of the whole stream. -/
theorem feed_isPrefix (bytes more : List UInt8) :
    (({} : Splitter).feed bytes).2 <+: lines (bytes ++ more) := by
  have hlines := feed_lines {} (by simp) (bytes ++ more)
  rw [feed_append, List.append_assoc] at hlines
  exact ⟨_, hlines⟩

end Splitter

end GameRelay.Text
