import GameRelay.Proofs.Json.Grammar
import GameRelay.Proofs.Json.RoundTrip

/-!
# Pieces of JSON texts

Spaces are passed over, a text between quotes is read as what it spells, and a number
is read whole whatever follows that does not lengthen it. A number that is not read is
out of range.
-/

set_option autoImplicit false

namespace GameRelay.Json

/-! ## Spaces -/

section
variable {b s : List Char}

theorem skipSpace_blank (h : Blank b) (s : List Char) : skipSpace (b ++ s) = skipSpace s :=
  List.dropWhile_append_of_pos h

theorem skipSpace_of_blank (h : Blank b) : skipSpace b = [] := by
  have hskip := skipSpace_blank h []
  rwa [List.append_nil] at hskip

theorem readValue_blank (h : Blank b) (fuel room : Nat) (s : List Char) :
    readValue (fuel + 1) room (b ++ s) = readValue (fuel + 1) room s := by
  rw [readValue, readValue, skipSpace_blank h]

theorem nextItem_blank (h : Blank b) (first : Bool) (s : List Char) :
    nextItem first (b ++ s) = nextItem first s := by
  rw [nextItem, nextItem, skipSpace_blank h]

theorem nextMember_blank (h : Blank b) (first : Bool) (s : List Char) :
    nextMember first (b ++ s) = nextMember first s := by
  rw [nextMember, nextMember, skipSpace_blank h]

theorem readItems_blank (h : Blank b) {fuel room : Nat} {first : Bool} (s : List Char) :
    readItems (fuel + 1) room first (b ++ s) = readItems (fuel + 1) room first s := by
  rw [readItems, readItems, nextItem_blank h]

theorem readMembers_blank (h : Blank b) {fuel room : Nat} {first : Bool} (s : List Char) :
    readMembers (fuel + 1) room first (b ++ s) = readMembers (fuel + 1) room first s := by
  rw [readMembers, readMembers, nextMember_blank h]

/-- Behind the comma too. -/
theorem nextItem_comma_blank (h : Blank b) (s : List Char) :
    nextItem false (',' :: (b ++ s)) = nextItem false (',' :: s) := by
  rw [nextItem, nextItem, skipSpace_cons (by decide), skipSpace_cons (by decide)]
  simp [skipSpace_blank h]

theorem nextMember_comma_blank (h : Blank b) (s : List Char) :
    nextMember false (',' :: (b ++ s)) = nextMember false (',' :: s) := by
  rw [nextMember, nextMember, skipSpace_cons (by decide), skipSpace_cons (by decide)]
  simp [skipSpace_blank h]

theorem readColon_blank (h : Blank b) (s : List Char) : readColon (b ++ ':' :: s) = .ok s := by
  rw [readColon, skipSpace_blank h]
  rfl

/-- No number goes on in a space. -/
theorem numberEnds_blank (h : Blank b) (hs : NumberEnds s) : NumberEnds (b ++ s) := by
  cases b with
  | nil => exact hs
  | cons c b =>
    intro d hd
    obtain rfl : c = d := Option.some.inj hd
    have hspace := h c List.mem_cons_self
    simp only [isSpace, Bool.or_eq_true, beq_iff_eq] at hspace
    rcases hspace with ((rfl | rfl) | rfl) | rfl <;> decide

end

/-! ## Texts -/

theorem readText_spells {s t : List Char} (h : Spells s t) (known rest : List Char) :
    readText known (s ++ '"' :: rest) = .ok (String.ofList (known.reverse ++ t), rest) := by
  induction h generalizing known with
  | nil => simp [readText]
  | plain hquote hslash hcontrol _ ih =>
    rw [List.cons_append, readText_plain hquote hslash hcontrol, ih]
    simp
  | short hletter _ ih =>
    rw [List.cons_append, List.cons_append, readText_short hletter, ih]
    simp
  | unit hn hleading htrailing _ ih =>
    simp only [List.cons_append, readText, hn, hleading, htrailing, if_false, Bool.false_eq_true,
      ih]
    simp
  | @pair a b c d a' b' c' d' n m s t hn hleading hm htrailing _ ih =>
    have hfirst : isTrailing n = false := by
      simp only [isLeading, Bool.and_eq_true, decide_eq_true_eq] at hleading
      simp [isTrailing]
      omega
    simp only [List.cons_append, readText, hn, hleading, hfirst, hm, htrailing, if_true, if_false,
      Bool.false_eq_true, ih]
    simp

/-! ## Numbers -/

section
variable {rest : List Char}

theorem readWhole_text {whole : List Char} (h : WholeText whole)
    (hrest : ∀ c, rest.head? = some c → isDigit c = false) :
    readWhole (whole ++ rest) = .ok (whole, rest) := by
  cases h with
  | zero =>
    cases rest with
    | nil => rfl
    | cons d rest => simp [readWhole, hrest d rfl]
  | @digits c s hc hdigits =>
    have htake := takeDigits_append hdigits.digits hrest
    have hdigit := hdigits.digits c List.mem_cons_self
    rw [List.cons_append] at htake ⊢
    simp only [readWhole, if_neg hc, if_pos hdigit, htake]

theorem readFraction_text {fraction : List Char} (h : FractionText fraction) :
    ∃ places, ∀ rest : List Char, (∀ c, rest.head? = some c → isDigit c = false ∧ c ≠ '.') →
      readFraction (fraction ++ rest) = .ok (places, rest) := by
  cases h with
  | absent =>
    refine ⟨none, fun rest hrest => ?_⟩
    cases rest with
    | nil => rfl
    | cons c rest => simp [readFraction, (hrest c rfl).2]
  | present digits hdigits =>
    refine ⟨some digits, fun rest hrest => ?_⟩
    have htake := takeDigits_append hdigits.digits fun c hc => (hrest c hc).1
    cases digits with
    | nil => exact absurd rfl hdigits.nonempty
    | cons d digits =>
      rw [List.cons_append, readFraction, htake]

/-- The value of an exponent is that of its digits. -/
theorem exponentValue_append {digits : List Char} (hdigits : ∀ c ∈ digits, isDigit c = true)
    (value : Nat) (hrest : ∀ c, rest.head? = some c → isDigit c = false) :
    (exponentValue value (digits ++ rest)).1 = (exponentValue value digits).1 := by
  induction digits generalizing value with
  | nil =>
    cases rest with
    | nil => rfl
    | cons c rest => simp [exponentValue, hrest c rfl]
  | cons d digits ih =>
    have hd := hdigits d List.mem_cons_self
    rw [List.cons_append, exponentValue, exponentValue, if_pos hd, if_pos hd]
    by_cases hlarge : maxExponent < value * 10 + digitValue d
    · simp only [if_pos hlarge]
    · simp only [if_neg hlarge]
      exact ih (fun c hc => hdigits c (List.mem_cons_of_mem _ hc)) _

theorem readSign_text {sign digits : List Char} (hsign : sign = [] ∨ sign = ['+'] ∨ sign = ['-'])
    (hdigits : DigitText digits) (rest : List Char) :
    readSign (sign ++ (digits ++ rest)) = (sign == ['-'], digits ++ rest) := by
  rcases hsign with rfl | rfl | rfl
  · cases digits with
    | nil => exact absurd rfl hdigits.nonempty
    | cons d digits =>
      have hd := hdigits.digits d List.mem_cons_self
      have hplus : d ≠ '+' := by
        rintro rfl
        exact absurd hd (by decide)
      have hminus : d ≠ '-' := by
        rintro rfl
        exact absurd hd (by decide)
      simp [readSign, hplus, hminus]
  · rfl
  · rfl

theorem readExponent_text {power : List Char} (h : PowerText power) :
    ∃ exponent, ∀ rest, NumberEnds rest →
      ∃ left, readExponent (power ++ rest) = .ok (exponent, left) ∧
        remainder exponent left = rest := by
  cases h with
  | absent =>
    refine ⟨none, fun rest hrest => ⟨rest, ?_, rfl⟩⟩
    cases rest with
    | nil => rfl
    | cons c rest => simp [readExponent, (hrest c rfl).2.2]
  | @present mark sign digits hmark hsign hdigits =>
    cases digits with
    | nil => exact absurd rfl hdigits.nonempty
    | cons d digits =>
      have hd := hdigits.digits d List.mem_cons_self
      have hmore : ∀ c ∈ digits, isDigit c = true := fun c hc =>
        hdigits.digits c (List.mem_cons_of_mem _ hc)
      refine ⟨some (sign == ['-'], (exponentValue (digitValue d) digits).1), fun rest hrest =>
        ⟨(exponentValue (digitValue d) (digits ++ rest)).2, ?_, ?_⟩⟩
      · have hread := readSign_text hsign hdigits rest
        have hvalue := exponentValue_append hmore (digitValue d) fun c hc => (hrest c hc).1
        rw [List.cons_append] at hread
        rw [List.cons_append, List.append_assoc, List.cons_append]
        simp only [readExponent, if_pos hmark, hread, if_pos hd, ← hvalue]
      · have hend := remainder_exponentValue (sign == ['-']) (digitValue d) (digits ++ rest)
        rw [exponentValue_append hmore (digitValue d) fun c hc => (hrest c hc).1,
          takeDigits_append hmore fun c hc => (hrest c hc).1] at hend
        exact hend

theorem head_power {power : List Char} (h : PowerText power) (hrest : NumberEnds rest) :
    ∀ c, (power ++ rest).head? = some c → isDigit c = false ∧ c ≠ '.' := by
  intro c hc
  cases h with
  | absent => exact ⟨(hrest c hc).1, (hrest c hc).2.1⟩
  | @present mark sign digits hmark =>
    obtain rfl : mark = c := by simpa using hc
    simp only [isExponentMark, Bool.or_eq_true, beq_iff_eq] at hmark
    rcases hmark with rfl | rfl <;> exact ⟨by decide, by decide⟩

def Settled (read : List Char → Read Number) (s : List Char) : Prop :=
  (∃ n, ∀ rest, NumberEnds rest → read (s ++ rest) = .ok (n, rest)) ∨
    ∀ rest, NumberEnds rest → ∃ left, read (s ++ rest) = .error (.here .outOfRange left)

theorem readMagnitude_text {whole fraction power : List Char} (negative : Bool)
    (hwhole : WholeText whole) (hfraction : FractionText fraction) (hpower : PowerText power) :
    Settled (readMagnitude negative) (whole ++ (fraction ++ power)) := by
  obtain ⟨places, hplaces⟩ := readFraction_text hfraction
  obtain ⟨exponent, hexponent⟩ := readExponent_text hpower
  have hread : ∀ rest, NumberEnds rest → ∃ left, remainder exponent left = rest ∧
      readMagnitude negative (whole ++ (fraction ++ power) ++ rest) =
        assemble negative whole places exponent left := by
    intro rest hrest
    obtain ⟨left, hleft, hend⟩ := hexponent rest hrest
    have hbehind := head_power hpower hrest
    refine ⟨left, hend, ?_⟩
    rw [List.append_assoc, List.append_assoc, readMagnitude_eq,
      readWhole_text hwhole (head_fraction hfraction hbehind)]
    simp only [bind, Except.bind, hplaces _ hbehind, hleft]
  rcases assemble_cases negative whole places exponent with ⟨n, hn⟩ | hlarge
  · refine .inl ⟨n, fun rest hrest => ?_⟩
    obtain ⟨left, hend, hleft⟩ := hread rest hrest
    rw [hleft, hn, hend]
  · refine .inr fun rest hrest => ?_
    obtain ⟨left, -, hleft⟩ := hread rest hrest
    exact ⟨left, hleft.trans (hlarge left)⟩

theorem head_whole {whole : List Char} (h : WholeText whole) :
    ∃ c s, whole = c :: s ∧ isDigit c = true := by
  cases h with
  | zero => exact ⟨'0', [], rfl, by decide⟩
  | @digits c s _ hdigits => exact ⟨c, s, rfl, hdigits.digits c List.mem_cons_self⟩

theorem head_number {s : List Char} (h : NumberText s) :
    ∃ c cs, s = c :: cs ∧ (c = '-' ∨ isDigit c = true) := by
  obtain ⟨hsign, hwhole, -, -⟩ := h
  obtain ⟨c, cs, rfl, hc⟩ := head_whole hwhole
  rcases hsign with rfl | rfl
  · exact ⟨c, _, rfl, .inr hc⟩
  · exact ⟨'-', _, rfl, .inl rfl⟩

theorem settled_of_numberText {s : List Char} (h : NumberText s) : Settled readNumber s := by
  cases h with
  | @of sign whole fraction power hsign hwhole hfraction hpower =>
    rcases hsign with rfl | rfl
    · have hplain : ∀ rest, readNumber (whole ++ (fraction ++ power) ++ rest) =
          readMagnitude false (whole ++ (fraction ++ power) ++ rest) := by
        intro rest
        obtain ⟨c, cs, rfl, hc⟩ := head_whole hwhole
        apply readNumber_plain
        rintro hminus
        obtain rfl : c = '-' := Option.some.inj hminus
        exact absurd hc (by decide)
      simpa only [Settled, List.nil_append, hplain] using
        readMagnitude_text false hwhole hfraction hpower
    · have hminus : ∀ s, readNumber ('-' :: s) = readMagnitude true s := fun _ => rfl
      simpa only [Settled, List.cons_append, List.nil_append, hminus] using
        readMagnitude_text true hwhole hfraction hpower

theorem readNumber_append {s : List Char} {n : Number} (h : NumberText s)
    (hn : readNumber s = .ok (n, [])) (hrest : NumberEnds rest) :
    readNumber (s ++ rest) = .ok (n, rest) := by
  have hends : NumberEnds [] := fun c hc => by cases hc
  rcases settled_of_numberText h with ⟨m, hm⟩ | hlarge
  · have hsame := hm [] hends
    rw [List.append_nil, hn] at hsame
    obtain ⟨rfl, -⟩ := Prod.mk.inj (Except.ok.inj hsame)
    exact hm rest hrest
  · obtain ⟨left, hleft⟩ := hlarge [] hends
    rw [List.append_nil, hn] at hleft
    cases hleft

end

end GameRelay.Json
