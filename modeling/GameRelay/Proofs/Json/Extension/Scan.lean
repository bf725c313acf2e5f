import GameRelay.Proofs.Json.Number
import GameRelay.Proofs.Json.Text

/-!
# Pieces of a text that goes on

A reader that stops before the end of a text gives the same if the text goes on,
and leaves so much more. A literal or a text closes itself, so that it may also
stop at the end; a number has to meet a character that ends it.
-/

set_option autoImplicit false

namespace GameRelay.Json

section
variable {ε α β : Type} {x : Except ε α}

theorem ok_of_bind {f : α → Except ε β} {b : β} (h : x >>= f = .ok b) :
    ∃ a, x = .ok a ∧ f a = .ok b := by
  cases x with
  | error e => cases h
  | ok a => exact ⟨a, rfl, h⟩

theorem ok_of_map {f : α → β} {b : β} (h : x.map f = .ok b) : ∃ a, x = .ok a ∧ f a = b := by
  cases x with
  | error e => cases h
  | ok a => exact ⟨a, rfl, Except.ok.inj h⟩

theorem ok_of_mapError {ε' : Type} {f : ε → ε'} {a : α} (h : x.mapError f = .ok a) : x = .ok a := by
  cases x with
  | error e => cases h
  | ok a => exact congrArg _ (Except.ok.inj h)

end

section
variable {s r : List Char}

theorem skipSpace_extend {c : Char} (h : skipSpace s = c :: r) (t : List Char) :
    skipSpace (s ++ t) = c :: (r ++ t) := by
  rw [skipSpace] at h
  rw [skipSpace, List.dropWhile_append, h]
  rfl

theorem readLetters_extend {letters : List Char} (h : readLetters letters s = .ok r)
    (t : List Char) : readLetters letters (s ++ t) = .ok (r ++ t) := by
  fun_induction readLetters letters s with
  | case1 s =>
    obtain rfl : s = r := Except.ok.inj h
    rfl
  | case3 letter letters s ih =>
    rw [List.cons_append, readLetters, if_pos rfl]
    exact ih h
  | _ => simp at h

/-! ## Texts -/

theorem readText_extend {known : List Char} {text : String}
    (h : readText known s = .ok (text, r)) (t : List Char) :
    readText known (s ++ t) = .ok (text, r ++ t) := by
  fun_induction readText known s with
  | case2 known rest =>
    obtain ⟨rfl, rfl⟩ := Prod.mk.inj (Except.ok.inj h)
    rfl
  | case6 known a b c d n hn htrailing hleading a' b' c' d' more m hm hpair ih =>
    simp only [List.cons_append, readText, hn, htrailing, hleading, hm, hpair, if_true, if_false,
      Bool.false_eq_true]
    exact ih h
  | case10 known a b c d rest n hn htrailing hleading ih =>
    simp only [List.cons_append, readText, hn, htrailing, hleading, if_false, Bool.false_eq_true]
    exact ih h
  | case13 known c rest hhex hu plain hplain ih =>
    rw [List.cons_append, List.cons_append, readText_short hplain]
    exact ih h
  | case16 known c rest hquote _ _ hend hmore hcontrol ih =>
    have hslash : c ≠ '\\' := by
      intro hc
      cases rest with
      | nil => exact hend hc rfl
      | cons d rest => exact hmore d rest hc rfl
    rw [List.cons_append, readText_plain hquote hslash hcontrol]
    exact ih h
  | _ => simp at h

theorem skipText_extend (h : skipText s = .ok r) (t : List Char) :
    skipText (s ++ t) = .ok (r ++ t) := by
  fun_induction skipText s with
  | case2 rest =>
    obtain rfl := Except.ok.inj h
    rfl
  | case4 a b c d rest n hn ih =>
    simp only [List.cons_append, skipText, hn]
    exact ih h
  | case7 c rest hhex hu plain hplain ih =>
    rw [List.cons_append, List.cons_append, skipText_short hplain]
    exact ih h
  | case10 c rest hquote _ _ hend hmore hcontrol ih =>
    have hslash : c ≠ '\\' := by
      intro hc
      cases rest with
      | nil => exact hend hc rfl
      | cons d rest => exact hmore d rest hc rfl
    rw [List.cons_append, skipText_plain hquote hslash hcontrol]
    exact ih h
  | _ => simp at h

/-! ## Numbers -/

theorem takeDigits_extend {digits : List Char} (h : takeDigits s = (digits, r)) (hr : r ≠ [])
    (t : List Char) : takeDigits (s ++ t) = (digits, r ++ t) := by
  rw [takeDigits, List.span_eq_takeWhile_dropWhile] at h ⊢
  obtain ⟨rfl, rfl⟩ := Prod.mk.inj h
  have hlength : (s.takeWhile isDigit).length ≠ s.length := by
    intro hall
    have hsplit := congrArg List.length (List.takeWhile_append_dropWhile (p := isDigit) (l := s))
    rw [List.length_append] at hsplit
    exact hr (List.length_eq_zero_iff.mp (by omega))
  rw [List.takeWhile_append, if_neg hlength, List.dropWhile_append, if_neg (by simpa using hr)]

theorem readWhole_extend {digits : List Char} (h : readWhole s = .ok (digits, r)) (hr : r ≠ [])
    (t : List Char) : readWhole (s ++ t) = .ok (digits, r ++ t) := by
  fun_cases readWhole s with
  | case3 d more hd =>
    obtain ⟨rfl, rfl⟩ : ['0'] = digits ∧ d :: more = r := by simpa [readWhole, hd] using h
    simp [readWhole, hd]
  | case4 =>
    obtain ⟨-, rfl⟩ : ['0'] = digits ∧ [] = r := by simpa [readWhole] using h
    exact absurd rfl hr
  | case5 c rest hc hdigit =>
    have htake : takeDigits (c :: rest) = (digits, r) := by
      simpa only [readWhole, if_neg hc, if_pos hdigit, Except.ok.injEq] using h
    have hmore := takeDigits_extend htake hr t
    rw [List.cons_append] at hmore ⊢
    simp only [readWhole, if_neg hc, if_pos hdigit, hmore]
  | _ => simp_all [readWhole]

theorem readFraction_extend {fraction : Option (List Char)}
    (h : readFraction s = .ok (fraction, r)) (hr : r ≠ []) (t : List Char) :
    readFraction (s ++ t) = .ok (fraction, r ++ t) := by
  cases s with
  | nil =>
    obtain ⟨-, rfl⟩ : none = fraction ∧ [] = r := by simpa [readFraction] using h
    exact absurd rfl hr
  | cons c rest =>
    rw [List.cons_append]
    by_cases hc : c = '.'
    · subst hc
      simp only [readFraction] at h ⊢
      rcases htake : takeDigits rest with ⟨digits, more⟩
      rw [htake] at h
      cases digits with
      | nil => cases more <;> simp at h
      | cons d digits =>
        obtain ⟨rfl, rfl⟩ : some (d :: digits) = fraction ∧ more = r := by simpa using h
        rw [takeDigits_extend htake hr]
    · obtain ⟨rfl, rfl⟩ : none = fraction ∧ c :: rest = r := by simpa [readFraction, hc] using h
      simp [readFraction, hc]

theorem exponentValue_extend {value : Nat} {total : Option Nat}
    (h : exponentValue value s = (total, r)) (hr : r ≠ []) (t : List Char) :
    exponentValue value (s ++ t) = (total, r ++ t) := by
  fun_induction exponentValue value s with
  | case1 value =>
    obtain ⟨-, rfl⟩ := Prod.mk.inj h
    exact absurd rfl hr
  | case2 value c rest hc next hlarge =>
    obtain ⟨rfl, rfl⟩ := Prod.mk.inj h
    rw [List.cons_append, exponentValue, if_pos hc, if_pos hlarge]
  | case3 value c rest hc next hsmall ih =>
    rw [List.cons_append, exponentValue, if_pos hc, if_neg hsmall]
    exact ih h
  | case4 value c rest hc =>
    obtain ⟨rfl, rfl⟩ := Prod.mk.inj h
    rw [List.cons_append, exponentValue, if_neg hc]

theorem readSign_extend (hs : s ≠ []) (t : List Char) :
    readSign (s ++ t) = ((readSign s).1, (readSign s).2 ++ t) := by
  cases s with
  | nil => exact absurd rfl hs
  | cons c rest =>
    by_cases hplus : c = '+'
    · subst hplus
      rfl
    · by_cases hminus : c = '-'
      · subst hminus
        rfl
      · simp [readSign, hplus, hminus]

theorem readExponent_extend {exponent : Option (Bool × Option Nat)}
    (h : readExponent s = .ok (exponent, r)) (hr : r ≠ []) (t : List Char) :
    readExponent (s ++ t) = .ok (exponent, r ++ t) := by
  fun_cases readExponent s with
  | case2 c more hc negative d rest hd value left hvalue hsign =>
    simp only [readExponent, if_pos hc, hsign, if_pos hd, hvalue, Except.ok.injEq,
      Prod.mk.injEq] at h
    obtain ⟨rfl, rfl⟩ := h
    have hmore : more ≠ [] := by
      rintro rfl
      simp [readSign] at hsign
    simp only [List.cons_append, readExponent, if_pos hc, readSign_extend hmore, hsign, if_pos hd,
      exponentValue_extend hvalue hr]
  | case4 c more hc =>
    obtain ⟨rfl, rfl⟩ : none = exponent ∧ c :: more = r := by simpa [readExponent, hc] using h
    simp [readExponent, hc]
  | _ => simp_all [readExponent]


theorem readExponent_ne_nil {exponent : Option (Bool × Option Nat)}
    (h : readExponent s = .ok (exponent, r)) (hr : r ≠ []) : s ≠ [] := by
  rintro rfl
  obtain ⟨-, rfl⟩ : none = exponent ∧ [] = r := by simpa [readExponent] using h
  exact hr rfl

theorem readFraction_ne_nil {fraction : Option (List Char)}
    (h : readFraction s = .ok (fraction, r)) (hr : r ≠ []) : s ≠ [] := by
  rintro rfl
  obtain ⟨-, rfl⟩ : none = fraction ∧ [] = r := by simpa [readFraction] using h
  exact hr rfl

theorem takeDigits_rest_extend (hr : (takeDigits s).2 ≠ []) (t : List Char) :
    (takeDigits (s ++ t)).2 = (takeDigits s).2 ++ t := by
  rcases h : takeDigits s with ⟨digits, more⟩
  rw [h] at hr
  rw [takeDigits_extend h hr]

theorem finite_cases (negative : Bool) (significand : Nat) (exponent : Int) :
    (∃ n, ∀ s, finite negative significand exponent s = .ok (n, s)) ∨
    ∀ s, finite negative significand exponent s = .error (.here .outOfRange s) := by
  unfold finite
  cases Decimal.scale significand exponent with
  | none => exact .inr fun s => rfl
  | some units => exact .inl ⟨_, fun s => rfl⟩

def assemble (negative : Bool) (whole : List Char) (fraction : Option (List Char))
    (exponent : Option (Bool × Option Nat)) (s : List Char) : Read Number :=
  let (high, taken) := absorb 0 whole
  let dropped := whole.length - taken
  let (significand, places) := absorb high (fraction.getD [])
  let shift : Int := dropped - places
  match fraction, exponent with
  | none, none =>
    if dropped = 0 then .ok (integer negative significand, s)
    else finite negative significand shift s
  | _, none => finite negative significand shift s
  | _, some (false, some e) => finite negative significand (shift + e) s
  | _, some (true, some e) => finite negative significand (shift - e) s
  | _, some (false, none) =>
    if significand = 0 then .ok (.float ⟨negative, 0⟩, (takeDigits s).2)
    else .error (.here .outOfRange s)
  | _, some (true, none) => .ok (.float ⟨negative, 0⟩, (takeDigits s).2)

theorem readMagnitude_eq (negative : Bool) (s : List Char) : readMagnitude negative s = (do
    let (whole, s) ← readWhole s
    let (fraction, s) ← readFraction s
    let (exponent, s) ← readExponent s
    assemble negative whole fraction exponent s) := rfl

def remainder (exponent : Option (Bool × Option Nat)) (s : List Char) : List Char :=
  match exponent with
  | some (_, none) => (takeDigits s).2
  | _ => s

theorem remainder_extend {exponent : Option (Bool × Option Nat)} (h : remainder exponent s ≠ [])
    (t : List Char) :
    s ≠ [] ∧ remainder exponent (s ++ t) = remainder exponent s ++ t := by
  unfold remainder at h ⊢
  split at h
  · refine ⟨?_, takeDigits_rest_extend h t⟩
    rintro rfl
    exact h rfl
  · exact ⟨h, rfl⟩

/-- Whether the number is in range does not depend on what follows it. -/
theorem assemble_cases (negative : Bool) (whole : List Char) (fraction : Option (List Char))
    (exponent : Option (Bool × Option Nat)) :
    (∃ n, ∀ s, assemble negative whole fraction exponent s = .ok (n, remainder exponent s)) ∨
    ∀ s, assemble negative whole fraction exponent s = .error (.here .outOfRange s) := by
  match fraction, exponent with
  | none, none =>
    by_cases hdropped : whole.length - (absorb 0 whole).2 = 0
    · exact .inl ⟨_, fun s => if_pos hdropped⟩
    · have hfinite := finite_cases negative (absorb (absorb 0 whole).1 []).1
        ((whole.length - (absorb 0 whole).2 : Nat) - (absorb (absorb 0 whole).1 []).2)
      simp only [assemble, Option.getD_none, if_neg hdropped]
      exact hfinite
  | some _, none => exact finite_cases negative _ _
  | none, some (false, some e) => exact finite_cases negative _ _
  | some _, some (false, some e) => exact finite_cases negative _ _
  | none, some (true, some e) => exact finite_cases negative _ _
  | some _, some (true, some e) => exact finite_cases negative _ _
  | fraction, some (false, none) =>
    by_cases hzero : (absorb (absorb 0 whole).1 (fraction.getD [])).1 = 0
    · cases fraction <;> exact .inl ⟨_, fun s => if_pos hzero⟩
    · cases fraction <;> exact .inr fun s => if_neg hzero
  | none, some (true, none) => exact .inl ⟨_, fun s => rfl⟩
  | some _, some (true, none) => exact .inl ⟨_, fun s => rfl⟩

theorem rest_of_assemble {negative : Bool} {whole : List Char} {fraction : Option (List Char)}
    {exponent : Option (Bool × Option Nat)} {n : Number}
    (h : assemble negative whole fraction exponent s = .ok (n, r)) :
    r = remainder exponent s ∧
      ∀ s', assemble negative whole fraction exponent s' = .ok (n, remainder exponent s') := by
  rcases assemble_cases negative whole fraction exponent with ⟨m, hm⟩ | hlarge
  · rw [hm] at h
    obtain ⟨rfl, rfl⟩ := Prod.mk.inj (Except.ok.inj h)
    exact ⟨rfl, hm⟩
  · rw [hlarge] at h
    cases h

theorem readMagnitude_extend {negative : Bool} {n : Number}
    (h : readMagnitude negative s = .ok (n, r)) (hr : r ≠ []) (t : List Char) :
    readMagnitude negative (s ++ t) = .ok (n, r ++ t) := by
  rw [readMagnitude_eq] at h ⊢
  obtain ⟨⟨whole, s₁⟩, hwhole, h⟩ := ok_of_bind h
  obtain ⟨⟨fraction, s₂⟩, hfraction, h⟩ := ok_of_bind h
  obtain ⟨⟨exponent, s₃⟩, hexponent, h⟩ := ok_of_bind h
  obtain ⟨rfl, hmore⟩ := rest_of_assemble h
  obtain ⟨hs₃, hrest⟩ := remainder_extend hr t
  have hs₂ := readExponent_ne_nil hexponent hs₃
  have hs₁ := readFraction_ne_nil hfraction hs₂
  simp only [readWhole_extend hwhole hs₁, readFraction_extend hfraction hs₂,
    readExponent_extend hexponent hs₃, bind, Except.bind]
  rw [hmore, hrest]

theorem readNumber_extend {n : Number} (h : readNumber s = .ok (n, r)) (hr : r ≠ [])
    (t : List Char) : readNumber (s ++ t) = .ok (n, r ++ t) := by
  cases s with
  | nil => simp [readNumber, readMagnitude, readWhole, bind, Except.bind] at h
  | cons c rest =>
    by_cases hc : c = '-'
    · subst hc
      exact readMagnitude_extend h hr t
    · rw [readNumber_plain (by simpa using hc)] at h
      rw [readNumber_plain (by simpa using hc)]
      exact readMagnitude_extend h hr t

theorem skipExponent_extend (h : skipExponent s = .ok r) (hr : r ≠ []) (t : List Char) :
    skipExponent (s ++ t) = .ok (r ++ t) := by
  cases s with
  | nil =>
    obtain rfl := Except.ok.inj h
    exact absurd rfl hr
  | cons c rest =>
    by_cases hc : isExponentMark c = true
    · have hrest : rest ≠ [] := by
        rintro rfl
        simp [skipExponent, hc, readSign] at h
      simp only [List.cons_append, skipExponent, if_pos hc, readSign_extend hrest] at h ⊢
      cases hdigits : (readSign rest).2 with
      | nil => simp [hdigits] at h
      | cons d more =>
        by_cases hd : isDigit d = true
        · obtain rfl : (takeDigits more).2 = r := by simpa [hdigits, hd] using h
          simp [hd, takeDigits_rest_extend hr]
        · simp [hdigits, hd] at h
    · obtain rfl : c :: rest = r := by simpa [skipExponent, hc] using h
      simp [skipExponent, hc]

theorem skipFraction_extend (h : skipFraction s = .ok r) (hr : r ≠ []) (t : List Char) :
    skipFraction (s ++ t) = .ok (r ++ t) := by
  cases s with
  | nil =>
    obtain rfl := Except.ok.inj h
    exact absurd rfl hr
  | cons c rest =>
    rw [List.cons_append]
    by_cases hc : c = '.'
    · subst hc
      simp only [skipFraction] at h ⊢
      rcases htake : takeDigits rest with ⟨digits, more⟩
      rw [htake] at h
      cases digits with
      | nil => simp at h
      | cons d digits =>
        obtain rfl : more = r := by simpa using h
        rw [takeDigits_extend htake hr]
    · obtain rfl : c :: rest = r := by simpa [skipFraction, hc] using h
      simp [skipFraction, hc]

theorem skipWhole_extend (h : skipWhole s = .ok r) (hr : r ≠ []) (t : List Char) :
    skipWhole (s ++ t) = .ok (r ++ t) := by
  cases s with
  | nil => simp [skipWhole] at h
  | cons c rest =>
    rw [skipWhole] at h
    obtain ⟨⟨digits, left⟩, hwhole, rfl⟩ := ok_of_map h
    have hmore := readWhole_extend hwhole hr t
    rw [List.cons_append] at hmore ⊢
    rw [skipWhole, hmore]
    rfl

theorem skipNumber_extend (h : skipNumber s = .ok r) (hr : r ≠ []) (t : List Char) :
    skipNumber (s ++ t) = .ok (r ++ t) := by
  obtain ⟨s₁, hwhole, h⟩ := ok_of_bind h
  obtain ⟨s₂, hfraction, h⟩ := ok_of_bind h
  have hs₂ : s₂ ≠ [] := by
    rintro rfl
    exact hr (Except.ok.inj h).symm
  have hs₁ : s₁ ≠ [] := by
    rintro rfl
    exact hs₂ (Except.ok.inj hfraction).symm
  have hstart : (if (s ++ t).head? = some '-' then (s ++ t).tail else s ++ t) =
      (if s.head? = some '-' then s.tail else s) ++ t := by
    cases s with
    | nil => simp [skipWhole] at hwhole
    | cons c rest =>
      rw [List.cons_append, List.head?_cons, List.head?_cons]
      split <;> rfl
  simp only [skipNumber, hstart, skipWhole_extend hwhole hs₁, skipFraction_extend hfraction hs₂,
    bind, Except.bind]
  exact skipExponent_extend h hr t

end

end GameRelay.Json
