import GameRelay.Proofs.Decimal.Shortest
import GameRelay.Proofs.Json.Accepted.Scan
import GameRelay.Proofs.Json.Skipped

/-!
# Printed values that are skipped

Every value can be skipped in its printed text: however deep it nests, in whatever order
its members stand, and also where a number that it holds would be out of range if it
were read. For that every printed number is a number by the grammar.
-/

set_option autoImplicit false

namespace GameRelay.Json

open GameRelay.Decimal

/-! ## Numbers -/

def LoneZero (s : List Char) : Prop := ∀ d t, s = '0' :: d :: t → isDigit d = false

theorem wholeText_of_loneZero {whole more : List Char} (h : DigitText whole)
    (hzero : LoneZero (whole ++ more)) : WholeText whole := by
  match whole with
  | [] => exact absurd rfl h.nonempty
  | c :: digits =>
    by_cases hc : c = '0'
    · subst hc
      match digits with
      | [] => exact .zero
      | d :: digits =>
        have hd := hzero d (digits ++ more) rfl
        rw [h.digits d (by simp)] at hd
        cases hd
    · exact .digits hc h

theorem powerText_of_exponentText {exponent : List Char} (h : ExponentText exponent) :
    PowerText exponent := by
  cases h with
  | absent => exact .absent
  | present sign digits hsign hdigits =>
    have hmark : isExponentMark 'e' = true := by decide
    have hsigns : [sign] = [] ∨ [sign] = ['+'] ∨ [sign] = ['-'] := by
      rcases hsign with rfl | rfl <;> simp
    exact .present hmark hsigns hdigits

/-- The parts of a written number are those of the grammar, if no zeros stand in front. -/
theorem numberText_of_magnitude {sign s : List Char} (hsign : sign = [] ∨ sign = ['-'])
    (h : MagnitudeText s) (hzero : LoneZero s) : NumberText (sign ++ s) := by
  obtain ⟨whole, fraction, exponent, rfl, hwhole, hfraction, hexponent⟩ := h
  exact .of hsign (wholeText_of_loneZero hwhole hzero) hfraction
    (powerText_of_exponentText hexponent)

theorem loneZero_of_head {s : List Char} (h : s.head? ≠ some '0') : LoneZero s := by
  rintro d t rfl
  exact absurd rfl h

theorem head?_take_append {digits : List Char} (h : digits ≠ []) {n : Nat} (hn : n ≠ 0)
    (more : List Char) : (digits.take n ++ more).head? = digits.head? := by
  have htake : digits.take n ≠ [] := by
    rw [Ne, List.take_eq_nil_iff, not_or]
    exact ⟨hn, h⟩
  rw [List.head?_append_of_ne_nil _ htake, List.head?_take, if_neg hn]

section
variable {digits : List Char} (hdigits : DigitText digits) (hhead : digits.head? ≠ some '0')
include hdigits hhead

theorem loneZero_positional (exponent : Int) : LoneZero (positional digits exponent) := by
  unfold positional
  by_cases hexponent : 0 ≤ exponent
  · apply loneZero_of_head
    rwa [if_pos hexponent, List.append_assoc, List.head?_append_of_ne_nil _ hdigits.nonempty]
  · rw [if_neg hexponent]
    by_cases hpoint : 0 < digits.length + exponent
    · apply loneZero_of_head
      rwa [if_pos hpoint, head?_take_append hdigits.nonempty (by omega)]
    · rw [if_neg hpoint]
      rintro d t hs
      obtain rfl : '.' = d := (List.cons.inj (List.cons.inj hs).2).1
      decide

theorem loneZero_scientific (exponent : Int) : LoneZero (scientific digits exponent) := by
  apply loneZero_of_head
  rwa [scientific, List.append_assoc, head?_take_append hdigits.nonempty (by decide)]

end

theorem loneZero_magnitudeText (units : Nat) : LoneZero (magnitudeText units) := by
  by_cases hunits : units = 0
  · subst hunits
    have hzero : magnitudeText 0 = ['0', '.', '0'] := by decide
    rw [hzero]
    rintro d t hs
    obtain rfl : '.' = d := (List.cons.inj (List.cons.inj hs).2).1
    decide
  · have hdigits := digitText_natChars (shortest units).digits
    have hhead := head_natChars (shortest_pos (Nat.pos_of_ne_zero hunits))
    simp only [magnitudeText]
    split
    · exact loneZero_positional hdigits hhead _
    · exact loneZero_scientific hdigits hhead _

theorem numberText_floatText (x : Binary64) : NumberText (floatText x) := by
  have hmagnitude := magnitudeText_cases x.units
  have hzero := loneZero_magnitudeText x.units
  unfold floatText
  split
  · exact numberText_of_magnitude (.inr rfl) hmagnitude hzero
  · exact numberText_of_magnitude (.inl rfl) hmagnitude hzero

theorem loneZero_natChars (n : Nat) : LoneZero (natChars n) := by
  by_cases hn : n = 0
  · subst hn
    rintro d t hs
    cases hs
  · exact loneZero_of_head (head_natChars (Nat.pos_of_ne_zero hn))

theorem numberText_intChars (i : Int) : NumberText (intChars i) := by
  have hmagnitude (n : Nat) : MagnitudeText (natChars n) :=
    .of _ [] [] (by simp) (digitText_natChars n) .absent .absent
  cases i with
  | ofNat n => exact numberText_of_magnitude (.inl rfl) (hmagnitude n) (loneZero_natChars n)
  | negSucc n =>
    exact numberText_of_magnitude (.inr rfl) (hmagnitude (n + 1)) (loneZero_natChars (n + 1))

theorem numberText_chars (n : Number) : NumberText n.chars := by
  cases n with
  | int i hi => exact numberText_intChars i
  | float x => exact numberText_floatText x

/-- A number by the grammar is skipped whole, in range or not. -/
theorem skipNumber_text {s rest : List Char} (h : NumberText s) (hrest : NumberEnds rest) :
    skipNumber (s ++ rest) = .ok rest := by
  obtain ⟨hsign, hwhole, hfraction, hpower⟩ := h
  rename_i sign whole fraction power
  obtain ⟨places, hplaces⟩ := readFraction_text hfraction
  obtain ⟨exponent, hexponent⟩ := readExponent_text hpower
  obtain ⟨left, hleft, hend⟩ := hexponent rest hrest
  have hbehind := head_power hpower hrest
  have hunsigned : (if (sign ++ (whole ++ (fraction ++ power)) ++ rest).head? = some '-'
      then (sign ++ (whole ++ (fraction ++ power)) ++ rest).tail
      else sign ++ (whole ++ (fraction ++ power)) ++ rest) =
        whole ++ (fraction ++ (power ++ rest)) := by
    rcases hsign with rfl | rfl
    · obtain ⟨c, digits, rfl, hc⟩ := head_whole hwhole
      have hminus : c ≠ '-' := by
        rintro rfl
        exact absurd hc (by decide)
      simp [hminus]
    · simp
  rw [skipNumber, hunsigned,
    skipWhole_of_readWhole (readWhole_text hwhole (head_fraction hfraction hbehind))]
  simp only [bind, Except.bind, skipFraction_of_readFraction (hplaces _ hbehind)]
  rw [skipExponent_of_readExponent hleft, hend]

/-! ## Values -/

section
variable {fuel : Nat} {first : Bool} {s inside start more rest : List Char}

theorem chars_pos (v : Value) : 0 < v.chars.length := by
  obtain ⟨c, cs, hchars, -⟩ := Value.head_chars v
  rw [hchars]
  exact Nat.succ_pos _

theorem skipToItem_chars (v : Value) (more : List Char) :
    skipToItem true (v.chars ++ more) = .ok (.entry (v.chars ++ more)) ∧
      skipToItem false (',' :: (v.chars ++ more)) = .ok (.entry (v.chars ++ more)) := by
  obtain ⟨c, cs, hchars, hstarts⟩ := Value.head_chars v
  rw [hchars, List.cons_append]
  constructor
  · rw [skipToItem, skipSpace_cons hstarts.1]
    simp [hstarts.2]
  · rw [skipToItem, skipSpace_cons (by decide)]
    simp

theorem skipItems_entry (hturn : skipToItem first s = .ok (.entry start))
    (hvalue : skipValue fuel start = .ok more) (hmore : skipItems fuel false more = .ok rest) :
    skipItems (fuel + 1) first s = .ok rest := by
  rw [skipItems, hturn]
  simp only [bind, Except.bind, hvalue, hmore]

theorem skipMembers_entry {key : String} (hturn : nextMember first s = .ok (.entry inside))
    (hkey : readText [] inside = .ok (key, ':' :: start)) (hvalue : skipValue fuel start = .ok more)
    (hmore : skipMembers fuel false more = .ok rest) :
    skipMembers (fuel + 1) first s = .ok rest := by
  rw [skipMembers, skipToMember_of_nextMember hturn]
  simp only [bind, Except.bind, skipText_of_readText hkey, readColon_cons, hvalue, hmore]

theorem skipValue_scalar {c : Char} (hspace : isSpace c = false) (hlist : c ≠ '[')
    (hobject : c ≠ '\x7b') : skipValue (fuel + 1) (c :: s) = skipScalar (c :: s) := by
  rw [skipValue, skipSpace_cons hspace]
  split <;> simp_all

theorem skipValue_number (n : Number) (hrest : NumberEnds rest) :
    skipValue (fuel + 1) (n.chars ++ rest) = .ok rest := by
  have hskip := skipNumber_text (numberText_chars n) hrest
  obtain ⟨c, cs, hchars, hc⟩ := head_number (numberText_chars n)
  have hdigit : (c = '-' || isDigit c) = true := by simpa using hc
  rw [hchars, List.cons_append] at hskip ⊢
  rw [skipValue_scalar (Value.starts_of_digit hc).1, skipScalar_digit hdigit, hskip]
  · exact ne_of_digit hdigit (by decide)
  · exact ne_of_digit hdigit (by decide)

end

mutual
/-- A printed value is skipped to its end, whatever follows that does not lengthen a
number. Each character accounts for two steps at most. -/
theorem skipValue_chars (v : Value) (fuel : Nat) (rest : List Char)
    (hfuel : 2 * v.chars.length ≤ fuel) (hrest : NumberEnds rest) :
    skipValue fuel (v.chars ++ rest) = .ok rest := by
  have hpos := chars_pos v
  obtain ⟨fuel, rfl⟩ : ∃ n, fuel = n + 1 := ⟨fuel - 1, by omega⟩
  match v with
  | .null => exact skipValue_scalar (by decide) (by decide) (by decide)
  | .bool true => exact skipValue_scalar (by decide) (by decide) (by decide)
  | .bool false => exact skipValue_scalar (by decide) (by decide) (by decide)
  | .number n => exact skipValue_number n hrest
  | .text text =>
    obtain ⟨inside, hinside, hread⟩ := readText_textChars text rest
    rw [Value.chars, hinside, skipValue_scalar (by decide) (by decide) (by decide), skipScalar]
    exact skipText_of_readText hread
  | .list items =>
    rw [Value.chars] at hfuel ⊢
    simp only [List.length_cons, List.length_append, List.length_nil] at hfuel
    have hitems := skipItems_chars items fuel rest (by omega)
    rw [List.append_assoc, List.cons_append, skipValue, skipSpace_cons (by decide)]
    exact hitems
  | .object members =>
    rw [Value.chars] at hfuel ⊢
    simp only [List.length_cons, List.length_append, List.length_nil] at hfuel
    have hmembers := skipMembers_chars members fuel rest (by omega)
    rw [List.append_assoc, List.cons_append, skipValue, skipSpace_cons (by decide)]
    exact hmembers

/-- So are the items of a list, from behind its bracket. -/
theorem skipItems_chars (items : List Value) (fuel : Nat) (rest : List Char)
    (hfuel : 2 * (Value.itemChars items).length + 1 ≤ fuel) :
    skipItems fuel true (Value.itemChars items ++ ']' :: rest) = .ok rest := by
  obtain ⟨fuel, rfl⟩ : ∃ n, fuel = n + 1 := ⟨fuel - 1, by omega⟩
  match items with
  | [] => rfl
  | v :: items =>
    rw [Value.itemChars_cons] at hfuel ⊢
    rw [List.length_append] at hfuel
    have hpos := chars_pos v
    have hvalue := skipValue_chars v fuel (Value.itemTail items ++ ']' :: rest) (by omega)
      (numberEnds_itemTail items rest)
    have htail := skipItems_tail items fuel rest (by omega)
    rw [List.append_assoc]
    exact skipItems_entry (skipToItem_chars _ _).1 hvalue htail

/-- The items that follow another one. -/
theorem skipItems_tail (items : List Value) (fuel : Nat) (rest : List Char)
    (hfuel : 2 * (Value.itemTail items).length + 1 ≤ fuel) :
    skipItems fuel false (Value.itemTail items ++ ']' :: rest) = .ok rest := by
  obtain ⟨fuel, rfl⟩ : ∃ n, fuel = n + 1 := ⟨fuel - 1, by omega⟩
  match items with
  | [] => rfl
  | v :: items =>
    rw [Value.itemTail] at hfuel ⊢
    simp only [List.length_cons, List.length_append] at hfuel
    have hvalue := skipValue_chars v fuel (Value.itemTail items ++ ']' :: rest) (by omega)
      (numberEnds_itemTail items rest)
    have htail := skipItems_tail items fuel rest (by omega)
    rw [List.cons_append, List.append_assoc]
    exact skipItems_entry (skipToItem_chars _ _).2 hvalue htail

/-- And the members of an object, likewise. -/
theorem skipMembers_chars (members : List (String × Value)) (fuel : Nat) (rest : List Char)
    (hfuel : 2 * (Value.memberChars members).length + 1 ≤ fuel) :
    skipMembers fuel true (Value.memberChars members ++ '\x7d' :: rest) = .ok rest := by
  obtain ⟨fuel, rfl⟩ : ∃ n, fuel = n + 1 := ⟨fuel - 1, by omega⟩
  match members with
  | [] => rfl
  | (key, v) :: members =>
    obtain ⟨inside, hinside, hkey⟩ := Value.memberChars_inside key v members rest
    rw [hinside]
    rw [Value.memberChars_cons] at hfuel
    simp only [List.length_cons, List.length_append] at hfuel
    have hvalue := skipValue_chars v fuel (Value.memberTail members ++ '\x7d' :: rest) (by omega)
      (numberEnds_memberTail members rest)
    have htail := skipMembers_tail members fuel rest (by omega)
    exact skipMembers_entry (nextMember_first inside) hkey hvalue htail

theorem skipMembers_tail (members : List (String × Value)) (fuel : Nat) (rest : List Char)
    (hfuel : 2 * (Value.memberTail members).length + 1 ≤ fuel) :
    skipMembers fuel false (Value.memberTail members ++ '\x7d' :: rest) = .ok rest := by
  obtain ⟨fuel, rfl⟩ : ∃ n, fuel = n + 1 := ⟨fuel - 1, by omega⟩
  match members with
  | [] => rfl
  | (key, v) :: members =>
    obtain ⟨inside, hinside, hkey⟩ := Value.memberTail_inside key v members rest
    rw [hinside]
    rw [Value.memberTail] at hfuel
    simp only [List.length_cons, List.length_append] at hfuel
    have hvalue := skipValue_chars v fuel (Value.memberTail members ++ '\x7d' :: rest) (by omega)
      (numberEnds_memberTail members rest)
    have htail := skipMembers_tail members fuel rest (by omega)
    exact skipMembers_entry (nextMember_comma inside) hkey hvalue htail
end

end GameRelay.Json
