import GameRelay.Proofs.Json.Extension.Value
import GameRelay.Proofs.Json.Float
import Mathlib.Data.List.DropRight

/-!
# Values that are skipped

Whatever can be read can be skipped, and what is left behind it is the same. Skipping
looks at less: it joins no surrogates, computes no number and counts no levels.
-/

set_option autoImplicit false

namespace GameRelay.Json

section
variable {s r : List Char}

theorem skipText_of_readText {known : List Char} {text : String}
    (h : readText known s = .ok (text, r)) : skipText s = .ok r := by
  fun_induction readText known s with
  | case2 known rest =>
    obtain ⟨-, rfl⟩ := Prod.mk.inj (Except.ok.inj h)
    rfl
  | case6 known a b c d n hn htrailing hleading a' b' c' d' more m hm hpair ih =>
    simp only [skipText, hn, hm]
    exact ih h
  | case10 known a b c d rest n hn htrailing hleading ih =>
    simp only [skipText, hn]
    exact ih h
  | case13 known c rest hhex hu plain hplain ih =>
    rw [skipText_short hplain]
    exact ih h
  | case16 known c rest hquote _ _ hend hmore hcontrol ih =>
    have hslash : c ≠ '\\' := by
      intro hc
      cases rest with
      | nil => exact hend hc rfl
      | cons d rest => exact hmore d rest hc rfl
    rw [skipText_plain hquote hslash hcontrol]
    exact ih h
  | _ => simp at h

/-! ## Numbers -/

theorem skipWhole_of_readWhole {whole : List Char} (h : readWhole s = .ok (whole, r)) :
    skipWhole s = .ok r := by
  cases s with
  | nil => cases h
  | cons c s =>
    rw [skipWhole, h]
    rfl

theorem skipFraction_of_readFraction {fraction : Option (List Char)}
    (h : readFraction s = .ok (fraction, r)) : skipFraction s = .ok r := by
  cases s with
  | nil =>
    obtain ⟨-, rfl⟩ := Prod.mk.inj (Except.ok.inj h)
    rfl
  | cons c s =>
    by_cases hc : c = '.'
    · subst hc
      simp only [readFraction, skipFraction] at h ⊢
      rcases htake : takeDigits s with ⟨digits, more⟩
      rw [htake] at h
      cases digits with
      | nil => cases more <;> simp at h
      | cons d digits =>
        obtain ⟨-, rfl⟩ := Prod.mk.inj (Except.ok.inj h)
        rfl
    · obtain ⟨-, rfl⟩ : none = fraction ∧ c :: s = r := by simpa [readFraction, hc] using h
      simp [skipFraction, hc]

theorem skipExponent_of_readExponent {exponent : Option (Bool × Option Nat)}
    (h : readExponent s = .ok (exponent, r)) : skipExponent s = .ok (remainder exponent r) := by
  cases s with
  | nil =>
    obtain ⟨rfl, rfl⟩ := Prod.mk.inj (Except.ok.inj h)
    rfl
  | cons c s =>
    by_cases hc : isExponentMark c = true
    · simp only [readExponent, skipExponent, if_pos hc] at h ⊢
      cases hdigits : (readSign s).2 with
      | nil => simp [hdigits] at h
      | cons d more =>
        by_cases hd : isDigit d = true
        · simp only [hdigits, if_pos hd, Except.ok.injEq, Prod.mk.injEq] at h ⊢
          obtain ⟨rfl, rfl⟩ := h
          exact (remainder_exponentValue _ _ more).symm
        · simp [hdigits, hd] at h
    · obtain ⟨rfl, rfl⟩ : none = exponent ∧ c :: s = r := by simpa [readExponent, hc] using h
      simp [skipExponent, hc, remainder]

theorem skipNumber_of_readNumber {n : Number} (h : readNumber s = .ok (n, r)) :
    skipNumber s = .ok r := by
  have hmagnitude : ∃ negative,
      readMagnitude negative (if s.head? = some '-' then s.tail else s) = .ok (n, r) := by
    by_cases hsign : s.head? = some '-'
    · obtain ⟨rest, rfl⟩ := List.head?_eq_some_iff.mp hsign
      exact ⟨true, h⟩
    · rw [readNumber_plain hsign] at h
      rw [if_neg hsign]
      exact ⟨false, h⟩
  obtain ⟨negative, h⟩ := hmagnitude
  rw [readMagnitude_eq] at h
  obtain ⟨⟨whole, s₁⟩, hwhole, h⟩ := ok_of_bind h
  obtain ⟨⟨fraction, s₂⟩, hfraction, h⟩ := ok_of_bind h
  obtain ⟨⟨exponent, s₃⟩, hexponent, h⟩ := ok_of_bind h
  rw [(rest_of_assemble h).1]
  simp only [skipNumber, skipWhole_of_readWhole hwhole, skipFraction_of_readFraction hfraction,
    bind, Except.bind]
  exact skipExponent_of_readExponent hexponent

theorem skipScalar_of_readScalar {v : Value} (h : readScalar s = .ok (v, r)) :
    skipScalar s = .ok r := by
  fun_cases readScalar s with
  | case1 => cases h
  | case2 rest =>
    obtain ⟨left, hletters, hv⟩ := ok_of_map h
    obtain ⟨-, rfl⟩ := Prod.mk.inj hv
    exact hletters
  | case3 rest =>
    obtain ⟨left, hletters, hv⟩ := ok_of_map h
    obtain ⟨-, rfl⟩ := Prod.mk.inj hv
    exact hletters
  | case4 rest =>
    obtain ⟨left, hletters, hv⟩ := ok_of_map h
    obtain ⟨-, rfl⟩ := Prod.mk.inj hv
    exact hletters
  | case5 rest =>
    obtain ⟨⟨text, left⟩, htext, hv⟩ := ok_of_map h
    obtain ⟨-, rfl⟩ := Prod.mk.inj hv
    exact skipText_of_readText htext
  | case6 c rest hn ht hf hquote hc =>
    rw [readScalar_digit hc] at h
    obtain ⟨⟨n, left⟩, hnumber, hv⟩ := ok_of_map h
    obtain ⟨-, rfl⟩ := Prod.mk.inj hv
    rw [skipScalar_digit hc]
    exact skipNumber_of_readNumber hnumber
  | case7 c rest hn ht hf hquote hc => simp [readScalar, hc] at h

end

/-! ## Lists and objects -/

theorem skipSpace_twice (s : List Char) : skipSpace (skipSpace s) = skipSpace s :=
  List.dropWhile_idempotent _ s

theorem skipValue_skipSpace (fuel : Nat) (s : List Char) :
    skipValue (fuel + 1) (skipSpace s) = skipValue (fuel + 1) s := by
  rw [skipValue, skipValue, skipSpace_twice]

section
variable {first : Bool} {s rest : List Char}

theorem skipToItem_of_close (h : nextItem first s = .ok (.close rest)) :
    skipToItem first s = .ok (.close rest) := by
  unfold nextItem at h
  unfold skipToItem
  cases hs : skipSpace s with
  | nil => simp [hs] at h
  | cons c more =>
    rw [hs] at h
    by_cases hclose : c = ']'
    · subst hclose
      exact h
    · cases first with
      | true => simp at h
      | false =>
        by_cases hcomma : c = ','
        · subst hcomma
          cases hmore : skipSpace more with
          | nil => simp [hmore] at h
          | cons d last => by_cases hd : d = ']' <;> simp [hmore, hd] at h
        · simp [hcomma] at h

/-- The spaces before the item are left to whoever skips the item. -/
theorem skipToItem_of_entry (h : nextItem first s = .ok (.entry rest)) :
    ∃ start, skipToItem first s = .ok (.entry start) ∧ skipSpace start = skipSpace rest := by
  unfold nextItem at h
  unfold skipToItem
  cases hs : skipSpace s with
  | nil => simp [hs] at h
  | cons c more =>
    rw [hs] at h
    by_cases hclose : c = ']'
    · subst hclose
      cases h
    · cases first with
      | true =>
        obtain rfl : c :: more = rest := by simpa [hclose] using h
        exact ⟨c :: more, by simp, rfl⟩
      | false =>
        by_cases hcomma : c = ','
        · subst hcomma
          refine ⟨more, by simp, ?_⟩
          cases hmore : skipSpace more with
          | nil => simp [hmore] at h
          | cons d last =>
            by_cases hd : d = ']'
            · simp [hmore, hd] at h
            · obtain rfl : d :: last = rest := by simpa [hmore, hd] using h
              rw [← hmore, skipSpace_twice]
        · simp [hcomma] at h

theorem skipToMember_of_nextMember {turn : Turn} (h : nextMember first s = .ok turn) :
    skipToMember first s = .ok turn := by
  unfold nextMember at h
  rw [skipToMember_eq]
  cases hs : skipSpace s with
  | nil => simp [hs] at h
  | cons c more =>
    rw [hs] at h
    by_cases hclose : c = '\x7d'
    · subst hclose
      exact h
    · cases first with
      | true =>
        by_cases hquote : c = '"'
        · obtain rfl : .entry more = turn := by simpa [hquote] using h
          simp [hquote, toKey, skipSpace, isSpace]
        · simp [hquote] at h
      | false =>
        by_cases hcomma : c = ','
        · subst hcomma
          cases hmore : skipSpace more with
          | nil => simp [hmore] at h
          | cons d last =>
            by_cases hquote : d = '"'
            · obtain rfl : .entry last = turn := by simpa [hmore, hquote] using h
              simp [toKey, hmore, hquote]
            · by_cases hd : d = '\x7d' <;> simp [hmore, hquote, hd] at h
        · simp [hcomma] at h

end

mutual
theorem skipValue_of_readValue {fuel room : Nat} {s r : List Char} {v : Value}
    (h : readValue fuel room s = .ok (v, r)) : skipValue fuel s = .ok r := by
  obtain ⟨fuel, rfl, hread⟩ := readValue_cases h
  rw [skipValue]
  rcases hread with ⟨rest, items, hs, -, hitems, -⟩ | ⟨rest, members, hs, -, hmembers, -⟩ |
    ⟨c, rest, hs, hlist, hobject, hscalar⟩
  · simp only [hs]
    exact skipItems_of_readItems hitems
  · simp only [hs]
    exact skipMembers_of_readMembers hmembers
  · simpa [hs, hlist, hobject] using skipScalar_of_readScalar hscalar
termination_by fuel

theorem skipItems_of_readItems {fuel room : Nat} {first : Bool} {s r : List Char}
    {items : List Value} (h : readItems fuel room first s = .ok (items, r)) :
    skipItems fuel first s = .ok r := by
  obtain ⟨fuel, rfl, hread⟩ := readItems_cases h
  rw [skipItems]
  rcases hread with ⟨hturn, -⟩ | ⟨rest, v, left, more, hturn, hvalue, hmore, -⟩
  · rw [skipToItem_of_close hturn]
    rfl
  · obtain ⟨start, hstart, hspace⟩ := skipToItem_of_entry hturn
    have hskip := skipValue_of_readValue hvalue
    obtain ⟨fuel, rfl, -⟩ := readValue_cases hvalue
    rw [← skipValue_skipSpace, ← hspace, skipValue_skipSpace] at hskip
    rw [hstart]
    simp only [bind, Except.bind, hskip]
    exact skipItems_of_readItems hmore
termination_by fuel

theorem skipMembers_of_readMembers {fuel room : Nat} {first : Bool} {s r : List Char}
    {members : List (String × Value)} (h : readMembers fuel room first s = .ok (members, r)) :
    skipMembers fuel first s = .ok r := by
  obtain ⟨fuel, rfl, hread⟩ := readMembers_cases h
  rw [skipMembers]
  rcases hread with ⟨hturn, -⟩ |
    ⟨inside, key, colon, rest, v, left, more, hturn, hkey, hcolon, hvalue, hmore, -⟩
  · rw [skipToMember_of_nextMember hturn]
    rfl
  · rw [skipToMember_of_nextMember hturn]
    simp only [bind, Except.bind, skipText_of_readText hkey, hcolon,
      skipValue_of_readValue hvalue]
    exact skipMembers_of_readMembers hmore
termination_by fuel
end

end GameRelay.Json
