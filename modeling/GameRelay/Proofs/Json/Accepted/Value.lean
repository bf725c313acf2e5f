import GameRelay.Proofs.Json.Accepted.Scan

/-!
# Reading JSON texts

Every JSON text is read as the value that it stands for, and so is every piece of it.
The induction is on the grammar; `Part.ReadFrom` says what it carries for each kind of
piece.
-/

set_option autoImplicit false

namespace GameRelay.Json

section
variable {room fuel : Nat} {s rest : List Char}

theorem readScalar_numberText {n : Number} (h : NumberText s) (hn : readNumber s = .ok (n, []))
    (hrest : NumberEnds rest) : readScalar (s ++ rest) = .ok (.number n, rest) := by
  have hread := readNumber_append h hn hrest
  obtain ⟨c, cs, rfl, hc⟩ := head_number h
  rw [List.cons_append] at hread ⊢
  rw [readScalar_digit (by simpa using hc), hread]
  rfl

/-- What stands behind a value: a comma or a closing bracket, with or without spaces. -/
theorem numberEnds_after {after : List Char} (h : Blank after) {c : Char}
    (hc : c = ',' ∨ c = ']' ∨ c = '\x7d' ∨ c = '\n') (s : List Char) :
    NumberEnds (after ++ c :: s) :=
  numberEnds_blank h (numberEnds_cons hc s)

theorem readItems_close {after : List Char} (h : Blank after) (first : Bool) (rest : List Char) :
    readItems (fuel + 1) room first (after ++ ']' :: rest) = .ok ([], rest) := by
  rw [readItems_blank h]
  rfl

theorem readMembers_close {after : List Char} (h : Blank after) (first : Bool)
    (rest : List Char) :
    readMembers (fuel + 1) room first (after ++ '\x7d' :: rest) = .ok ([], rest) := by
  rw [readMembers_blank h]
  rfl

/-- The name of a member, up to its value; `before` is what stands before the name. -/
theorem key_of_keyText {k : List Char} {key : String} (h : KeyText k key) (s : List Char) :
    ∃ inside colon gap, Blank gap ∧ nextMember true (k ++ s) = .ok (.entry inside) ∧
      nextMember false (',' :: (k ++ s)) = .ok (.entry inside) ∧
      readText [] inside = .ok (key, colon) ∧ readColon colon = .ok (gap ++ s) := by
  cases h with
  | @of before name gap after t hbefore hname hgap hafter =>
    refine ⟨name ++ '"' :: (gap ++ ':' :: (after ++ s)), gap ++ ':' :: (after ++ s), after, hafter,
      ?_, ?_, ?_, readColon_blank hgap _⟩
    · rw [List.append_assoc, nextMember_blank hbefore]
      simp [nextMember_first]
    · rw [List.append_assoc, nextMember_comma_blank hbefore]
      simp [nextMember_comma]
    · simpa using readText_spells hname [] (gap ++ ':' :: (after ++ s))

end

/-- What the reader makes of a piece of text. An item or a member that is not the first
one follows a comma. -/
def Part.ReadFrom (room : Nat) (s : List Char) : Part → Prop
  | .value v => (∃ c cs, s = c :: cs ∧ Value.Starts c) ∧
      ∀ fuel rest, 2 * s.length ≤ fuel → NumberEnds rest →
        readValue fuel room (s ++ rest) = .ok (v, rest)
  | .items vs => ∀ fuel rest, 2 * s.length + 1 ≤ fuel →
      readItems fuel room true (s ++ ']' :: rest) = .ok (vs, rest) ∧
        readItems fuel room false (',' :: (s ++ ']' :: rest)) = .ok (vs, rest)
  | .members ms => ∀ fuel rest, 2 * s.length + 1 ≤ fuel →
      readMembers fuel room true (s ++ '\x7d' :: rest) = .ok (ms, rest) ∧
        readMembers fuel room false (',' :: (s ++ '\x7d' :: rest)) = .ok (ms, rest)

namespace Part.ReadFrom

variable {fuel room : Nat} {s more rest : List Char} {v : Value} (h : ReadFrom room s (.value v))
include h

theorem pos : 0 < s.length := by
  obtain ⟨⟨c, cs, rfl, -⟩, -⟩ := h
  exact Nat.succ_pos _

section
variable (hfuel : 2 * s.length ≤ fuel) (hmore : NumberEnds more)
include hfuel hmore

/-- One more item, the first one or behind a comma, and the items that follow it. -/
theorem items {before : List Char} {vs : List Value} (hbefore : Blank before)
    (htail : readItems fuel room false more = .ok (vs, rest)) :
    readItems (fuel + 1) room true (before ++ (s ++ more)) = .ok (v :: vs, rest) ∧
      readItems (fuel + 1) room false (',' :: (before ++ (s ++ more))) = .ok (v :: vs, rest) := by
  have hread := h.2 fuel more hfuel hmore
  obtain ⟨⟨c, cs, rfl, hstarts⟩, -⟩ := h
  have hfirst := nextItem_first hstarts (cs ++ more)
  have hcomma := nextItem_comma hstarts (cs ++ more)
  rw [List.cons_append] at hread ⊢
  rw [readItems, readItems, nextItem_blank hbefore, nextItem_comma_blank hbefore, hfirst, hcomma]
  simp only [bind, Except.bind, hread, htail]
  exact ⟨rfl, rfl⟩

/-- One more member, likewise. -/
theorem members {k : List Char} {key : String} {ms : List (String × Value)} (hk : KeyText k key)
    (htail : readMembers fuel room false more = .ok (ms, rest)) :
    readMembers (fuel + 1) room true (k ++ (s ++ more)) = .ok ((key, v) :: ms, rest) ∧
      readMembers (fuel + 1) room false (',' :: (k ++ (s ++ more))) =
        .ok ((key, v) :: ms, rest) := by
  obtain ⟨inside, colon, gap, hgap, hfirst, hcomma, hkey, hcolon⟩ := key_of_keyText hk (s ++ more)
  have hread : readValue fuel room (gap ++ (s ++ more)) = .ok (v, more) := by
    have hpos := h.pos
    obtain ⟨fuel, rfl⟩ : ∃ n, fuel = n + 1 := ⟨fuel - 1, by omega⟩
    rw [readValue_blank hgap]
    exact h.2 _ _ hfuel hmore
  rw [readMembers, readMembers, hfirst, hcomma]
  simp only [bind, Except.bind, hkey, hcolon, hread, htail]
  exact ⟨rfl, rfl⟩

end

end Part.ReadFrom

/-- A scalar, of any length. -/
theorem readFrom_scalar {room : Nat} {s : List Char} {v : Value}
    (hstarts : ∃ c cs, s = c :: cs ∧ Value.Starts c ∧ c ≠ '[' ∧ c ≠ '\x7b')
    (hread : ∀ rest, NumberEnds rest → readScalar (s ++ rest) = .ok (v, rest)) :
    Part.ReadFrom room s (.value v) := by
  obtain ⟨c, cs, rfl, hc, hlist, hobject⟩ := hstarts
  refine ⟨⟨c, cs, rfl, hc⟩, fun fuel rest hfuel hrest => ?_⟩
  rw [List.length_cons] at hfuel
  obtain ⟨fuel, rfl⟩ : ∃ n, fuel = n + 1 := ⟨fuel - 1, by omega⟩
  rw [List.cons_append, readValue_scalar hc.1 hlist hobject]
  exact hread rest hrest

theorem readFrom_list {room : Nat} {s : List Char} {vs : List Value} (hroom : 1 < room)
    (h : ∀ fuel rest, 2 * s.length + 1 ≤ fuel →
      readItems fuel (room - 1) true (s ++ ']' :: rest) = .ok (vs, rest)) :
    Part.ReadFrom room ('[' :: (s ++ [']'])) (.value (.list vs)) := by
  refine ⟨⟨'[', _, rfl, by decide, by decide⟩, fun fuel rest hfuel _ => ?_⟩
  simp only [List.length_cons, List.length_append, List.length_nil] at hfuel
  obtain ⟨fuel, rfl⟩ : ∃ n, fuel = n + 1 := ⟨fuel - 1, by omega⟩
  have hitems := h fuel rest (by omega)
  rw [List.cons_append, List.append_assoc]
  exact readValue_list hroom hitems

theorem readFrom_object {room : Nat} {s : List Char} {ms : List (String × Value)} (hroom : 1 < room)
    (h : ∀ fuel rest, 2 * s.length + 1 ≤ fuel →
      readMembers fuel (room - 1) true (s ++ '\x7d' :: rest) = .ok (ms, rest)) :
    Part.ReadFrom room ('\x7b' :: (s ++ ['\x7d'])) (.value (.ofMembers ms)) := by
  refine ⟨⟨'\x7b', _, rfl, by decide, by decide⟩, fun fuel rest hfuel _ => ?_⟩
  simp only [List.length_cons, List.length_append, List.length_nil] at hfuel
  obtain ⟨fuel, rfl⟩ : ∃ n, fuel = n + 1 := ⟨fuel - 1, by omega⟩
  have hmembers := h fuel rest (by omega)
  rw [List.cons_append, List.append_assoc]
  exact readValue_object hroom hmembers

/-- Every piece of text is read as the part that it stands for. -/
theorem readFrom_of_denotes {room : Nat} {s : List Char} {p : Part} (h : Denotes room s p) :
    p.ReadFrom room s := by
  induction h with
  | null =>
    exact readFrom_scalar ⟨'n', _, rfl, ⟨by decide, by decide⟩, by decide, by decide⟩ fun _ _ => rfl
  | yes =>
    exact readFrom_scalar ⟨'t', _, rfl, ⟨by decide, by decide⟩, by decide, by decide⟩ fun _ _ => rfl
  | no =>
    exact readFrom_scalar ⟨'f', _, rfl, ⟨by decide, by decide⟩, by decide, by decide⟩ fun _ _ => rfl
  | number hs hn =>
    refine readFrom_scalar ?_ fun rest hrest => readScalar_numberText hs hn hrest
    obtain ⟨c, cs, hcs, hc⟩ := head_number hs
    refine ⟨c, cs, hcs, Value.starts_of_digit hc, ?_, ?_⟩
    · rintro rfl
      simp [isDigit] at hc
    · rintro rfl
      simp [isDigit] at hc
  | @text room s t hs =>
    refine readFrom_scalar ⟨'"', _, rfl, ⟨by decide, by decide⟩, by decide, by decide⟩
      fun rest _ => ?_
    have hread := readText_spells hs [] rest
    rw [List.cons_append, List.append_assoc, readScalar, List.singleton_append, hread]
    rfl
  | noItems hroom hs =>
    refine readFrom_list hroom fun fuel rest hfuel => ?_
    obtain ⟨fuel, rfl⟩ : ∃ n, fuel = n + 1 := ⟨fuel - 1, by omega⟩
    exact readItems_close hs true rest
  | list hroom _ ih => exact readFrom_list hroom fun fuel rest hfuel => (ih fuel rest hfuel).1
  | @noMembers room s hroom hs =>
    have hmembers : ∀ fuel rest, 2 * s.length + 1 ≤ fuel →
        readMembers fuel (room - 1) true (s ++ '\x7d' :: rest) = .ok ([], rest) := by
      intro fuel rest hfuel
      obtain ⟨fuel, rfl⟩ : ∃ n, fuel = n + 1 := ⟨fuel - 1, by omega⟩
      exact readMembers_close hs true rest
    exact readFrom_object hroom hmembers
  | object hroom _ ih => exact readFrom_object hroom fun fuel rest hfuel => (ih fuel rest hfuel).1
  | lastItem hbefore _ hafter ih =>
    intro fuel rest hfuel
    have hpos := ih.pos
    simp only [List.length_append] at hfuel
    obtain ⟨fuel, rfl⟩ : ∃ n, fuel = n + 1 + 1 := ⟨fuel - 2, by omega⟩
    have hends := numberEnds_after (c := ']') hafter (by simp) rest
    rw [List.append_assoc, List.append_assoc]
    exact ih.items (by omega) hends hbefore (readItems_close hafter false rest)
  | @moreItems room before s after more v vs hbefore _ hafter _ ih ihmore =>
    intro fuel rest hfuel
    have hpos := ih.pos
    simp only [List.length_append, List.length_cons] at hfuel
    obtain ⟨fuel, rfl⟩ : ∃ n, fuel = n + 1 + 1 := ⟨fuel - 2, by omega⟩
    have hends := numberEnds_after (c := ',') hafter (by simp) (more ++ ']' :: rest)
    have hmore := (ihmore (fuel + 1) rest (by omega)).2
    rw [← readItems_blank hafter] at hmore
    simp only [List.append_assoc, List.cons_append]
    exact ih.items (by omega) hends hbefore hmore
  | lastMember hk _ hafter ih =>
    intro fuel rest hfuel
    have hpos := ih.pos
    simp only [List.length_append] at hfuel
    obtain ⟨fuel, rfl⟩ : ∃ n, fuel = n + 1 + 1 := ⟨fuel - 2, by omega⟩
    have hends := numberEnds_after (c := '\x7d') hafter (by simp) rest
    rw [List.append_assoc, List.append_assoc]
    exact ih.members (by omega) hends hk (readMembers_close hafter false rest)
  | @moreMembers room k s after more key v ms hk _ hafter _ ih ihmore =>
    intro fuel rest hfuel
    have hpos := ih.pos
    simp only [List.length_append, List.length_cons] at hfuel
    obtain ⟨fuel, rfl⟩ : ∃ n, fuel = n + 1 + 1 := ⟨fuel - 2, by omega⟩
    have hends := numberEnds_after (c := ',') hafter (by simp) (more ++ '\x7d' :: rest)
    have hmore := (ihmore (fuel + 1) rest (by omega)).2
    rw [← readMembers_blank hafter] at hmore
    simp only [List.append_assoc, List.cons_append]
    exact ih.members (by omega) hends hk hmore

end GameRelay.Json
