import GameRelay.Proofs.Text.Lines

/-!
# A stream that is cut

The lines of a stream that was cut somewhere are those of the whole stream up to
the cut, and perhaps a beginning of the next one. Where both are text, the one text
is a beginning of the other.
-/

set_option autoImplicit false

namespace GameRelay.Text

theorem encode_of_decodeLine {bytes : List UInt8} {text : String}
    (h : decodeLine bytes = .ok text) : encode text = bytes := by
  unfold decodeLine at h
  unfold String.fromUTF8? at h
  split at h
  · rename_i text' hdecode
    obtain rfl := Except.ok.inj h
    split at hdecode
    · obtain rfl := Option.some.inj hdecode
      rw [encode, toList_eq_data]
      rfl
    · cases hdecode
  · cases h

theorem utf8Encode_eq (cs : List Char) :
    cs.utf8Encode = (cs.flatMap String.utf8EncodeChar).toByteArray := rfl

/-- Whole characters of a text that was cut are its first ones. -/
theorem isPrefix_of_encode {first whole : String} (h : encode first <+: encode whole) :
    first.toList <+: whole.toList := by
  obtain ⟨rest, hrest⟩ := h
  rw [encode_eq, encode_eq] at hrest
  apply List.isPrefix_of_utf8Encode_append_eq_utf8Encode rest.toByteArray
  rw [utf8Encode_eq, utf8Encode_eq, ← hrest, List.toByteArray_append]

theorem isPrefix_of_decodeLine {piece line : List UInt8} {first whole : String}
    (hpiece : decodeLine piece = .ok first) (hline : decodeLine line = .ok whole)
    (h : piece <+: line) : first.toList <+: whole.toList := by
  apply isPrefix_of_encode
  rwa [encode_of_decodeLine hpiece, encode_of_decodeLine hline]

inductive CutLines : List (List UInt8) → List (List UInt8) → Prop where
  | between (full more : List (List UInt8)) : CutLines full (full ++ more)
  /-- The cut is inside of a line. -/
  | inside (full more : List (List UInt8)) (piece line : List UInt8) : piece <+: line →
      CutLines (full ++ [piece]) (full ++ line :: more)

/-- Of the lines of a cut stream only the first ones may be read. -/
theorem CutLines.of_isPrefix {read first all : List (List UInt8)} (h : CutLines first all)
    (hread : read <+: first) : CutLines read all := by
  cases h with
  | between _ more =>
    obtain ⟨unread, rfl⟩ := hread
    rw [List.append_assoc]
    exact .between read (unread ++ more)
  | inside full more piece line hpiece =>
    rcases List.prefix_concat_iff.mp hread with rfl | hread
    · exact .inside full more piece line hpiece
    · obtain ⟨unread, rfl⟩ := hread
      rw [List.append_assoc]
      exact .between read (unread ++ line :: more)

theorem cutLines_of_isPrefix {cut whole : List UInt8} (h : cut <+: whole) :
    CutLines (lines cut) (lines whole) := by
  induction whole generalizing cut with
  | nil =>
    obtain rfl := List.prefix_nil.mp h
    exact .between [] []
  | cons byte whole ih =>
    cases cut with
    | nil => exact .between [] _
    | cons byte' cut =>
      obtain ⟨rfl, hrest⟩ := List.cons_prefix_cons.mp h
      have hlines := ih hrest
      rw [lines, lines]
      by_cases hbyte : byte' = newline
      · rw [if_pos hbyte, if_pos hbyte]
        generalize lines cut = full, lines whole = all at hlines
        cases hlines with
        | between _ more => exact .between ([byte'] :: full) more
        | inside full more piece line hpiece =>
          exact .inside ([byte'] :: full) more piece line hpiece
      · rw [if_neg hbyte, if_neg hbyte]
        generalize lines cut = full, lines whole = all at hlines
        -- The byte lengthens the first line on both sides.
        cases hlines with
        | between _ more =>
          cases full with
          | cons first full => exact .between ((byte' :: first) :: full) more
          | nil =>
            cases more with
            | nil => exact .between [[byte']] []
            | cons first more => exact .inside [] more [byte'] (byte' :: first) (by simp)
        | inside full more piece line hpiece =>
          cases full with
          | cons first full => exact .inside ((byte' :: first) :: full) more piece line hpiece
          | nil => exact .inside [] more (byte' :: piece) (byte' :: line) (by simpa using hpiece)

end GameRelay.Text
