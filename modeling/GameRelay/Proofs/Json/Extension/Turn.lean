import GameRelay.Proofs.Json.Extension.Scan

/-!
# Turns and scalars of a text that goes on

What comes next in a list or in an object, and what a scalar is, stays the same with
more text behind it, unless the scalar is a number at the end.
-/

set_option autoImplicit false

namespace GameRelay.Json

section
variable {s r : List Char}

def Turn.extend (t : List Char) : Turn → Turn
  | .close rest => .close (rest ++ t)
  | .entry rest => .entry (rest ++ t)

theorem nextItem_extend {first : Bool} {turn : Turn} (h : nextItem first s = .ok turn)
    (t : List Char) : nextItem first (s ++ t) = .ok (turn.extend t) := by
  unfold nextItem at h ⊢
  cases hs : skipSpace s with
  | nil => simp [hs] at h
  | cons c rest =>
    rw [hs] at h
    rw [skipSpace_extend hs]
    by_cases hclose : c = ']'
    · subst hclose
      obtain rfl := Except.ok.inj h
      rfl
    · cases first with
      | true =>
        obtain rfl : .entry (c :: rest) = turn := by simpa [hclose] using h
        simp [Turn.extend]
      | false =>
        by_cases hcomma : c = ','
        · subst hcomma
          cases hrest : skipSpace rest with
          | nil => simp [hrest] at h
          | cons d more =>
            by_cases htrailing : d = ']'
            · simp [hrest, htrailing] at h
            · obtain rfl : .entry (d :: more) = turn := by simpa [hrest, htrailing] using h
              simp [skipSpace_extend hrest, htrailing, Turn.extend]
        · simp [hcomma] at h

theorem nextMember_extend {first : Bool} {turn : Turn} (h : nextMember first s = .ok turn)
    (t : List Char) : nextMember first (s ++ t) = .ok (turn.extend t) := by
  unfold nextMember at h ⊢
  cases hs : skipSpace s with
  | nil => simp [hs] at h
  | cons c rest =>
    rw [hs] at h
    rw [skipSpace_extend hs]
    by_cases hclose : c = '\x7d'
    · subst hclose
      obtain rfl := Except.ok.inj h
      rfl
    · cases first with
      | true =>
        by_cases hquote : c = '"'
        · obtain rfl : .entry rest = turn := by simpa [hquote] using h
          simp [hquote, Turn.extend]
        · simp [hquote] at h
      | false =>
        by_cases hcomma : c = ','
        · subst hcomma
          cases hrest : skipSpace rest with
          | nil => simp [hrest] at h
          | cons d more =>
            by_cases hquote : d = '"'
            · obtain rfl : .entry more = turn := by simpa [hrest, hquote] using h
              simp [skipSpace_extend hrest, hquote, Turn.extend]
            · by_cases htrailing : d = '\x7d'
              · simp [hrest, htrailing] at h
              · simp [hrest, hquote, htrailing] at h
        · simp [hcomma] at h

theorem readColon_extend (h : readColon s = .ok r) (t : List Char) :
    readColon (s ++ t) = .ok (r ++ t) := by
  unfold readColon at h ⊢
  cases hs : skipSpace s with
  | nil => simp [hs] at h
  | cons c rest =>
    rw [hs] at h
    rw [skipSpace_extend hs]
    by_cases hc : c = ':'
    · subst hc
      obtain rfl := Except.ok.inj h
      rfl
    · simp [hc] at h

theorem skipToItem_extend {first : Bool} {turn : Turn} (h : skipToItem first s = .ok turn)
    (t : List Char) : skipToItem first (s ++ t) = .ok (turn.extend t) := by
  unfold skipToItem at h ⊢
  cases hs : skipSpace s with
  | nil => simp [hs] at h
  | cons c rest =>
    rw [hs] at h
    rw [skipSpace_extend hs]
    by_cases hclose : c = ']'
    · subst hclose
      obtain rfl := Except.ok.inj h
      rfl
    · cases first with
      | true =>
        obtain rfl : .entry (c :: rest) = turn := by simpa [hclose] using h
        simp [Turn.extend]
      | false =>
        by_cases hcomma : c = ','
        · obtain rfl : .entry rest = turn := by simpa [hcomma] using h
          simp [hcomma, Turn.extend]
        · simp [hcomma] at h

def toKey (s : List Char) : Except Fault Turn :=
  match skipSpace s with
  | [] => .error (.peek .endInObject [])
  | '"' :: rest => .ok (.entry rest)
  | rest => .error (.peek .keyNotText rest)

theorem skipToMember_eq (first : Bool) (s : List Char) : skipToMember first s =
    match skipSpace s with
    | [] => .error (.peek .endInObject [])
    | '\x7d' :: rest => .ok (.close rest)
    | c :: rest =>
      if first then toKey (c :: rest)
      else if c = ',' then toKey rest
      else .error (.peek .expectedObjectEnd (c :: rest)) := rfl

theorem toKey_extend {turn : Turn} (h : toKey s = .ok turn) (t : List Char) :
    toKey (s ++ t) = .ok (turn.extend t) := by
  unfold toKey at h ⊢
  cases hs : skipSpace s with
  | nil => simp [hs] at h
  | cons c rest =>
    rw [hs] at h
    rw [skipSpace_extend hs]
    by_cases hquote : c = '"'
    · subst hquote
      obtain rfl := Except.ok.inj h
      rfl
    · simp [hquote] at h

theorem skipToMember_extend {first : Bool} {turn : Turn} (h : skipToMember first s = .ok turn)
    (t : List Char) : skipToMember first (s ++ t) = .ok (turn.extend t) := by
  rw [skipToMember_eq] at h ⊢
  cases hs : skipSpace s with
  | nil => simp [hs] at h
  | cons c rest =>
    rw [hs] at h
    rw [skipSpace_extend hs]
    by_cases hclose : c = '\x7d'
    · subst hclose
      obtain rfl := Except.ok.inj h
      rfl
    · cases first with
      | true =>
        have hkey : toKey (c :: rest) = .ok turn := by simpa [hclose] using h
        simpa [hclose] using toKey_extend hkey t
      | false =>
        by_cases hcomma : c = ','
        · have hkey : toKey rest = .ok turn := by simpa [hcomma] using h
          simpa [hcomma] using toKey_extend hkey t
        · simp [hcomma] at h

theorem readScalar_extend {v : Value} (h : readScalar s = .ok (v, r)) (hr : r ≠ [])
    (t : List Char) : readScalar (s ++ t) = .ok (v, r ++ t) := by
  fun_cases readScalar s with
  | case1 => simp [readScalar] at h
  | case2 rest =>
    obtain ⟨left, hletters, hv⟩ := ok_of_map h
    obtain ⟨rfl, rfl⟩ := Prod.mk.inj hv
    rw [List.cons_append, readScalar, readLetters_extend hletters]
    rfl
  | case3 rest =>
    obtain ⟨left, hletters, hv⟩ := ok_of_map h
    obtain ⟨rfl, rfl⟩ := Prod.mk.inj hv
    rw [List.cons_append, readScalar, readLetters_extend hletters]
    rfl
  | case4 rest =>
    obtain ⟨left, hletters, hv⟩ := ok_of_map h
    obtain ⟨rfl, rfl⟩ := Prod.mk.inj hv
    rw [List.cons_append, readScalar, readLetters_extend hletters]
    rfl
  | case5 rest =>
    obtain ⟨⟨text, left⟩, htext, hv⟩ := ok_of_map h
    obtain ⟨rfl, rfl⟩ := Prod.mk.inj hv
    rw [List.cons_append, readScalar, readText_extend htext]
    rfl
  | case6 c rest hn ht hf hquote hc =>
    rw [readScalar_digit hc] at h
    obtain ⟨⟨n, left⟩, hnumber, hv⟩ := ok_of_map h
    obtain ⟨rfl, rfl⟩ := Prod.mk.inj hv
    rw [List.cons_append, readScalar_digit hc, ← List.cons_append, readNumber_extend hnumber hr]
    rfl
  | case7 c rest hn ht hf hquote hc => simp [readScalar, hc] at h

theorem skipScalar_extend (h : skipScalar s = .ok r) (hr : r ≠ []) (t : List Char) :
    skipScalar (s ++ t) = .ok (r ++ t) := by
  fun_cases skipScalar s with
  | case1 => simp [skipScalar] at h
  | case2 rest => exact readLetters_extend h t
  | case3 rest => exact readLetters_extend h t
  | case4 rest => exact readLetters_extend h t
  | case5 rest => exact skipText_extend h t
  | case6 c rest hn ht hf hquote hc =>
    rw [skipScalar_digit hc] at h
    rw [List.cons_append, skipScalar_digit hc, ← List.cons_append]
    exact skipNumber_extend h hr t
  | case7 c rest hn ht hf hquote hc => simp [skipScalar, hc] at h

end

end GameRelay.Json
