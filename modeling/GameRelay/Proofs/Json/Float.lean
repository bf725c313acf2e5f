import GameRelay.Proofs.Json.Extension.Scan

/-!
# Floating-point numbers as they are written

A written number is digits, a fraction and an exponent, the last two of which may
be absent. A reader that takes such a number at all takes the whole of it.
-/

set_option autoImplicit false

namespace GameRelay.Json

open GameRelay.Decimal

structure DigitText (s : List Char) : Prop where
  nonempty : s ≠ []
  digits : ∀ c ∈ s, isDigit c = true

theorem digitText_natChars (n : Nat) : DigitText (natChars n) :=
  ⟨natChars_ne_nil n, fun _ => isDigit_of_mem_natChars⟩

theorem isDigit_of_mem_replicate {n : Nat} {c : Char} (h : c ∈ List.replicate n '0') :
    isDigit c = true := by
  rw [List.eq_of_mem_replicate h]
  decide

inductive FractionText : List Char → Prop where
  | absent : FractionText []
  | present (digits : List Char) : DigitText digits → FractionText ('.' :: digits)

inductive ExponentText : List Char → Prop where
  | absent : ExponentText []
  | present (sign : Char) (digits : List Char) : (sign = '-' ∨ sign = '+') → DigitText digits →
      ExponentText ('e' :: sign :: digits)

inductive MagnitudeText (s : List Char) : Prop where
  | of (whole fraction exponent : List Char) : s = whole ++ (fraction ++ exponent) →
      DigitText whole → FractionText fraction → ExponentText exponent → MagnitudeText s

theorem magnitudeText_positional {digits : List Char} (h : DigitText digits) (exponent : Int) :
    MagnitudeText (positional digits exponent) := by
  unfold positional
  by_cases hexponent : 0 ≤ exponent
  · have hzero : DigitText ['0'] := ⟨by simp, by simp [isDigit]⟩
    refine .of (digits ++ List.replicate exponent.toNat '0') ['.', '0'] [] ?_ ?_
      (.present _ hzero) .absent
    · simp [if_pos hexponent]
    · refine ⟨by simp [h.nonempty], ?_⟩
      intro c hc
      rcases List.mem_append.mp hc with hc | hc
      · exact h.digits c hc
      · exact isDigit_of_mem_replicate hc
  · rw [if_neg hexponent]
    by_cases hpoint : 0 < digits.length + exponent
    · have hfraction : DigitText (digits.drop (digits.length + exponent).toNat) := by
        constructor
        · rw [Ne, List.drop_eq_nil_iff]
          omega
        · exact fun c hc => h.digits c (List.mem_of_mem_drop hc)
      refine .of (digits.take (digits.length + exponent).toNat) _ [] ?_ ?_ (.present _ hfraction)
        .absent
      · simp [if_pos hpoint]
      · constructor
        · rw [Ne, List.take_eq_nil_iff]
          have := h.nonempty
          simp only [not_or]
          exact ⟨by omega, this⟩
        · exact fun c hc => h.digits c (List.mem_of_mem_take hc)
    · have hfraction : DigitText
          (List.replicate (-(digits.length + exponent)).toNat '0' ++ digits) := by
        refine ⟨by simp [h.nonempty], ?_⟩
        intro c hc
        rcases List.mem_append.mp hc with hc | hc
        · exact isDigit_of_mem_replicate hc
        · exact h.digits c hc
      refine .of ['0'] _ [] ?_ ⟨by simp, by simp [isDigit]⟩ (.present _ hfraction) .absent
      simp [if_neg hpoint]

theorem magnitudeText_scientific {digits : List Char} (h : DigitText digits) (exponent : Int) :
    MagnitudeText (scientific digits exponent) := by
  have hpower := digitText_natChars ((digits.length : Int) + exponent - 1).natAbs
  have hsign : (if (digits.length : Int) + exponent - 1 < 0 then '-' else '+') = '-' ∨
      (if (digits.length : Int) + exponent - 1 < 0 then '-' else '+') = '+' := by
    split
    · exact .inl rfl
    · exact .inr rfl
  have hwhole : DigitText (digits.take 1) :=
    ⟨by simp [h.nonempty], fun c hc => h.digits c (List.mem_of_mem_take hc)⟩
  have hfraction : FractionText (if digits.tail.isEmpty then [] else '.' :: digits.tail) := by
    by_cases htail : digits.tail = []
    · rw [htail]
      exact .absent
    · rw [if_neg (by simpa using htail)]
      exact .present _ ⟨htail, fun c hc => h.digits c (List.mem_of_mem_tail hc)⟩
  exact .of _ _ _ (by simp [scientific]) hwhole hfraction (.present _ _ hsign hpower)

theorem magnitudeText_cases (units : Nat) : MagnitudeText (magnitudeText units) := by
  have hdigits := digitText_natChars (shortest units).digits
  simp only [magnitudeText]
  split
  · exact magnitudeText_positional hdigits _
  · exact magnitudeText_scientific hdigits _

/-! ## How far it is read -/

section
variable {rest r : List Char}

theorem rest_of_readWhole {digits whole : List Char} (hdigits : DigitText digits)
    (hrest : ∀ c, rest.head? = some c → isDigit c = false)
    (h : readWhole (digits ++ rest) = .ok (whole, r)) : r = rest := by
  have htake := takeDigits_append hdigits.digits hrest
  cases digits with
  | nil => exact absurd rfl hdigits.nonempty
  | cons c more =>
    rw [List.cons_append] at h htake
    by_cases hc : c = '0'
    · subst hc
      cases more with
      | nil =>
        cases rest with
        | nil =>
          simp only [readWhole, List.append_nil, if_true, Except.ok.injEq, Prod.mk.injEq] at h
          exact h.2.symm
        | cons d rest =>
          have hd := hrest d rfl
          obtain ⟨-, rfl⟩ : ['0'] = whole ∧ d :: rest = r := by simpa [readWhole, hd] using h
          rfl
      | cons d more =>
        have hd : isDigit d = true := hdigits.digits d (by simp)
        simp [readWhole, hd] at h
    · have hdigit : isDigit c = true := hdigits.digits c List.mem_cons_self
      simp only [readWhole, if_neg hc, if_pos hdigit, htake, Except.ok.injEq, Prod.mk.injEq] at h
      exact h.2.symm

theorem rest_of_readFraction {fraction : List Char} {read : Option (List Char)}
    (hfraction : FractionText fraction)
    (hrest : ∀ c, rest.head? = some c → isDigit c = false ∧ c ≠ '.')
    (h : readFraction (fraction ++ rest) = .ok (read, r)) : r = rest := by
  cases hfraction with
  | absent =>
    cases rest with
    | nil =>
      simp only [readFraction, List.append_nil, Except.ok.injEq, Prod.mk.injEq] at h
      exact h.2.symm
    | cons c rest =>
      obtain ⟨-, rfl⟩ : none = read ∧ c :: rest = r := by
        simpa [readFraction, (hrest c rfl).2] using h
      rfl
  | present digits hdigits =>
    have htake := takeDigits_append hdigits.digits fun c hc => (hrest c hc).1
    rw [List.cons_append] at h
    simp only [readFraction, htake] at h
    cases digits with
    | nil => exact absurd rfl hdigits.nonempty
    | cons d digits =>
      simp only [Except.ok.injEq, Prod.mk.injEq] at h
      exact h.2.symm

theorem takeDigits_snd (s : List Char) : (takeDigits s).2 = s.dropWhile isDigit := by
  rw [takeDigits, List.span_eq_takeWhile_dropWhile]

/-- The digits of an exponent are read to their end, or to where it is too long. -/
theorem remainder_exponentValue (negative : Bool) (value : Nat) (s : List Char) :
    remainder (some (negative, (exponentValue value s).1)) (exponentValue value s).2 =
      (takeDigits s).2 := by
  rw [takeDigits_snd]
  fun_induction exponentValue value s with
  | case1 value => rfl
  | case2 value c rest hc next hlarge =>
    rw [remainder, takeDigits_snd, List.dropWhile_cons_of_pos hc]
  | case3 value c rest hc next hsmall ih => rw [List.dropWhile_cons_of_pos hc, ih]
  | case4 value c rest hc => simp [remainder, hc]

theorem rest_of_readExponent {exponent : List Char} {read : Option (Bool × Option Nat)}
    (hexponent : ExponentText exponent) (hrest : NumberEnds rest)
    (h : readExponent (exponent ++ rest) = .ok (read, r)) : remainder read r = rest := by
  cases hexponent with
  | absent =>
    cases rest with
    | nil =>
      simp only [readExponent, List.append_nil, Except.ok.injEq, Prod.mk.injEq] at h
      rw [← h.1, ← h.2]
      rfl
    | cons c rest =>
      simp only [readExponent, List.nil_append, (hrest c rfl).2.2, Except.ok.injEq,
        Prod.mk.injEq, Bool.false_eq_true, if_false] at h
      rw [← h.1, ← h.2]
      rfl
  | present sign digits hsign hdigits =>
    have hmark : isExponentMark 'e' = true := by decide
    have hread : readSign (sign :: (digits ++ rest)) = (sign == '-', digits ++ rest) := by
      rcases hsign with rfl | rfl <;> rfl
    cases digits with
    | nil => exact absurd rfl hdigits.nonempty
    | cons d more =>
      have hd : isDigit d = true := hdigits.digits d List.mem_cons_self
      have htake : takeDigits (more ++ rest) = (more, rest) :=
        takeDigits_append (fun c hc => hdigits.digits c (List.mem_cons_of_mem _ hc))
          fun c hc => (hrest c hc).1
      simp only [List.cons_append] at h hread
      simp only [readExponent, if_pos hmark, hread, if_pos hd, Except.ok.injEq,
        Prod.mk.injEq] at h
      rw [← h.1, ← h.2, remainder_exponentValue, htake]

theorem head_exponent {exponent : List Char} (hexponent : ExponentText exponent)
    (hrest : NumberEnds rest) :
    ∀ c, (exponent ++ rest).head? = some c → isDigit c = false ∧ c ≠ '.' := by
  intro c hc
  cases hexponent with
  | absent => exact ⟨(hrest c hc).1, (hrest c hc).2.1⟩
  | present sign digits =>
    obtain rfl : 'e' = c := by simpa using hc
    exact ⟨by decide, by decide⟩

theorem head_fraction {fraction : List Char} (hfraction : FractionText fraction)
    (hrest : ∀ c, rest.head? = some c → isDigit c = false ∧ c ≠ '.') :
    ∀ c, (fraction ++ rest).head? = some c → isDigit c = false := by
  intro c hc
  cases hfraction with
  | absent => exact (hrest c hc).1
  | present digits =>
    obtain rfl : '.' = c := by simpa using hc
    decide

/-- A number that is taken is taken whole. -/
theorem rest_of_readMagnitude {text : List Char} {negative : Bool} {n : Number}
    (htext : MagnitudeText text) (hrest : NumberEnds rest)
    (h : readMagnitude negative (text ++ rest) = .ok (n, r)) : r = rest := by
  obtain ⟨whole, fraction, exponent, rfl, hwhole, hfraction, hexponent⟩ := htext
  rw [readMagnitude_eq] at h
  obtain ⟨⟨digits, s₁⟩, hdigits, h⟩ := ok_of_bind h
  obtain ⟨⟨places, s₂⟩, hplaces, h⟩ := ok_of_bind h
  obtain ⟨⟨power, s₃⟩, hpower, hassemble⟩ := ok_of_bind h
  have hbehind := head_exponent hexponent hrest
  rw [List.append_assoc, List.append_assoc] at hdigits
  obtain rfl := rest_of_readWhole hwhole (head_fraction hfraction hbehind) hdigits
  obtain rfl := rest_of_readFraction hfraction hbehind hplaces
  rw [(rest_of_assemble hassemble).1]
  exact rest_of_readExponent hexponent hrest hpower

/-- A floating-point number starts with a minus or a digit. -/
theorem head_floatText (x : Binary64) :
    ∃ c cs, floatText x = c :: cs ∧ (c = '-' ∨ isDigit c = true) := by
  unfold floatText
  split
  · exact ⟨'-', _, rfl, .inl rfl⟩
  · obtain ⟨whole, fraction, exponent, hsplit, hwhole, -, -⟩ := magnitudeText_cases x.units
    cases whole with
    | nil => exact absurd rfl hwhole.nonempty
    | cons c whole =>
      rw [hsplit]
      exact ⟨c, _, rfl, .inr (hwhole.digits c List.mem_cons_self)⟩

theorem rest_of_readNumber {x : Binary64} {n : Number} (hrest : NumberEnds rest)
    (h : readNumber (floatText x ++ rest) = .ok (n, r)) : r = rest := by
  have hmagnitude := magnitudeText_cases x.units
  unfold floatText at h
  split at h
  · exact rest_of_readMagnitude hmagnitude hrest h
  · obtain ⟨whole, fraction, exponent, hsplit, hwhole, -, -⟩ := magnitudeText_cases x.units
    have hplain : (magnitudeText x.units ++ rest).head? ≠ some '-' := by
      cases whole with
      | nil => exact absurd rfl hwhole.nonempty
      | cons c whole =>
        rw [hsplit]
        rintro hminus
        obtain rfl : c = '-' := Option.some.inj hminus
        exact absurd (hwhole.digits '-' List.mem_cons_self) (by decide)
    rw [readNumber_plain hplain] at h
    exact rest_of_readMagnitude hmagnitude hrest h

end

end GameRelay.Json
