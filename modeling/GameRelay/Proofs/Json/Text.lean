import GameRelay.Json.Record

/-!
# Texts as they are written and read

Every character is escaped in the way in which it is read, and no written text
holds a newline.
-/

set_option autoImplicit false

namespace GameRelay.Json

theorem hexValue?_hexDigit : ∀ n < 16, hexValue? (hexDigit n) = some n := by decide

theorem hexFour?_control {n : Nat} (h : n < 0x20) :
    hexFour? '0' '0' (hexDigit (n / 16)) (hexDigit (n % 16)) = some n := by
  have hhigh := hexValue?_hexDigit (n / 16) (by omega)
  have hlow := hexValue?_hexDigit (n % 16) (by omega)
  have hzero : hexValue? '0' = some 0 := by decide
  simp only [hexFour?, hzero, hhigh, hlow, bind, Option.bind_some, pure]
  congr 1
  omega

theorem readText_plain {c : Char} (hquote : c ≠ '"') (hslash : c ≠ '\\')
    (hplain : ¬ c.toNat < 0x20) (known s : List Char) :
    readText known (c :: s) = readText (c :: known) s := by
  rw [readText.eq_def]
  split <;> simp_all [Nat.not_lt.mpr]

theorem readText_short {c plain : Char} (h : shortEscape? c = some plain) (known s : List Char) :
    readText known ('\\' :: c :: s) = readText (plain :: known) s := by
  have hu : c ≠ 'u' := by
    rintro rfl
    cases h
  rw [readText, h]
  · exact fun _ _ _ _ _ hc => absurd hc hu
  · exact fun hc => hu hc

theorem skipText_plain {c : Char} (hquote : c ≠ '"') (hslash : c ≠ '\\')
    (hplain : ¬ c.toNat < 0x20) (s : List Char) : skipText (c :: s) = skipText s := by
  rw [skipText.eq_def]
  split <;> simp_all [Nat.not_lt.mpr]

theorem skipText_short {c plain : Char} (h : shortEscape? c = some plain) (s : List Char) :
    skipText ('\\' :: c :: s) = skipText s := by
  have hu : c ≠ 'u' := by
    rintro rfl
    cases h
  rw [skipText, h]
  · exact fun _ _ _ _ _ hc => absurd hc hu
  · exact fun hc => hu hc

/-- One character, as it was before it was escaped. -/
theorem readText_escapeChar (known : List Char) (c : Char) (s : List Char) :
    readText known (escapeChar c ++ s) = readText (c :: known) s := by
  unfold escapeChar
  split
  · simp [readText, shortEscape?]
  · simp [readText, shortEscape?]
  · simp [readText, shortEscape?]
  · simp [readText, shortEscape?]
  · simp [readText, shortEscape?]
  · simp [readText, shortEscape?]
  · simp [readText, shortEscape?]
  · rename_i hquote hslash _ _ _ _ _
    split
    · rename_i hcontrol
      have htrailing : isTrailing c.toNat = false := by simp [isTrailing]; omega
      have hleading : isLeading c.toNat = false := by simp [isLeading]; omega
      simp only [List.cons_append, List.nil_append]
      rw [readText, hexFour?_control hcontrol]
      simp [htrailing, hleading]
    · rename_i hplain
      exact readText_plain hquote hslash hplain known s

theorem readText_flatMap (known cs rest : List Char) :
    readText known (cs.flatMap escapeChar ++ '"' :: rest) =
      .ok (String.ofList (known.reverse ++ cs), rest) := by
  induction cs generalizing known with
  | nil => simp [readText]
  | cons c cs ih =>
    rw [List.flatMap_cons, List.append_assoc, readText_escapeChar, ih, List.reverse_cons,
      List.append_assoc]
    rfl

/-- A text is read back, behind its opening quote. -/
theorem readText_textChars (text : String) (rest : List Char) :
    ∃ inside, textChars text ++ rest = '"' :: inside ∧ readText [] inside = .ok (text, rest) := by
  refine ⟨text.toList.flatMap escapeChar ++ '"' :: rest, by simp [textChars], ?_⟩
  rw [readText_flatMap]
  simp

theorem newline_not_mem_escapeChar (c : Char) : '\n' ∉ escapeChar c := by
  unfold escapeChar
  split
  · decide
  · decide
  · decide
  · decide
  · decide
  · decide
  · decide
  · rename_i _ _ _ _ hnewline _ _
    split
    · rename_i hcontrol
      have hdigit : ∀ n < 16, hexDigit n ≠ '\n' := by decide
      have hhigh := hdigit (c.toNat / 16) (by omega)
      have hlow := hdigit (c.toNat % 16) (by omega)
      simp [hhigh.symm, hlow.symm]
    · exact fun h => hnewline (List.mem_singleton.mp h).symm

theorem newline_not_mem_textChars (text : String) : '\n' ∉ textChars text := by
  simp only [textChars, List.cons_append, List.mem_cons, List.mem_append, List.mem_flatMap,
    List.not_mem_nil, or_false, not_or]
  refine ⟨by decide, ?_, by decide⟩
  rintro ⟨c, -, hc⟩
  exact newline_not_mem_escapeChar c hc

end GameRelay.Json
