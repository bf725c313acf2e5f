import GameRelay.Proofs.Json.Float

/-!
# Values as they are written and read

A value without floating-point numbers is read back from its text, if it does not
nest too deeply. The reader takes two steps at most for each character.
-/

set_option autoImplicit false

namespace GameRelay.Json

/-! ## Members in order -/

/-- A member behind all others goes to the end. -/
theorem insert_of_lt {key : String} {value : Value} {members : List (String × Value)}
    (h : ∀ member ∈ members, member.1 < key) :
    Value.insert key value members = members ++ [(key, value)] := by
  induction members with
  | nil => rfl
  | cons member rest ih =>
    have hlt := h member List.mem_cons_self
    rw [Value.insert, if_neg (String.lt_asymm hlt), if_pos hlt,
      ih fun m hm => h m (List.mem_cons_of_mem _ hm)]
    rfl

theorem foldl_insert (known members : List (String × Value))
    (h : ((known ++ members).map Prod.fst).Pairwise (· < ·)) :
    members.foldl (fun known member => Value.insert member.1 member.2 known) known =
      known ++ members := by
  induction members generalizing known with
  | nil => simp
  | cons member rest ih =>
    have hbefore : ∀ m ∈ known, m.1 < member.1 := by
      intro m hm
      rw [List.map_append, List.pairwise_append] at h
      exact h.2.2 _ (List.mem_map_of_mem hm) _ (by simp)
    rw [List.foldl_cons, insert_of_lt hbefore, ih (known ++ [member]) (by simpa using h)]
    simp

theorem ofMembers_of_ordered {members : List (String × Value)}
    (h : (members.map Prod.fst).Pairwise (· < ·)) : Value.ofMembers members = .object members := by
  rw [Value.ofMembers, foldl_insert [] members h]
  rfl

/-! ## Written items and members -/

namespace Value

def itemTail : List Value → List Char
  | [] => []
  | v :: rest => ',' :: (v.chars ++ itemTail rest)

def memberTail : List (String × Value) → List Char
  | [] => []
  | (k, v) :: rest => ',' :: (textChars k ++ ':' :: (v.chars ++ memberTail rest))

theorem itemChars_cons (v : Value) (rest : List Value) :
    itemChars (v :: rest) = v.chars ++ itemTail rest := by
  induction rest generalizing v with
  | nil => simp [itemChars, itemTail]
  | cons w rest ih => rw [itemChars, ih, itemTail]; simp

theorem memberChars_cons (k : String) (v : Value) (rest : List (String × Value)) :
    memberChars ((k, v) :: rest) = textChars k ++ ':' :: (v.chars ++ memberTail rest) := by
  induction rest generalizing k v with
  | nil => simp [memberChars, memberTail]
  | cons member rest ih =>
    obtain ⟨l, w⟩ := member
    rw [memberChars, ih, memberTail]
    · simp
    · simp

section
variable (key : String) (v : Value) (members : List (String × Value)) (rest : List Char)

/-- The first member of a written object, from behind the quote of its name. -/
theorem memberChars_inside : ∃ inside,
    memberChars ((key, v) :: members) ++ '\x7d' :: rest = '"' :: inside ∧
    readText [] inside = .ok (key, ':' :: (v.chars ++ (memberTail members ++ '\x7d' :: rest))) := by
  obtain ⟨inside, hinside, hkey⟩ := readText_textChars key
    (':' :: (v.chars ++ (memberTail members ++ '\x7d' :: rest)))
  refine ⟨inside, ?_, hkey⟩
  rw [← hinside, memberChars_cons]
  simp

/-- A later member, likewise. -/
theorem memberTail_inside : ∃ inside,
    memberTail ((key, v) :: members) ++ '\x7d' :: rest = ',' :: '"' :: inside ∧
    readText [] inside = .ok (key, ':' :: (v.chars ++ (memberTail members ++ '\x7d' :: rest))) := by
  obtain ⟨inside, hinside, hkey⟩ := memberChars_inside key v members rest
  refine ⟨inside, ?_, hkey⟩
  rw [← hinside, memberChars_cons, memberTail]
  rfl

end

def Starts (c : Char) : Prop := isSpace c = false ∧ c ≠ ']'

theorem head_intChars (i : Int) : ∃ c cs, intChars i = c :: cs ∧ (c = '-' ∨ isDigit c = true) := by
  cases i with
  | negSucc n => exact ⟨'-', _, rfl, .inl rfl⟩
  | ofNat n =>
    cases hdigits : natChars n with
    | nil => exact absurd hdigits (natChars_ne_nil n)
    | cons c cs =>
      exact ⟨c, cs, hdigits, .inr (isDigit_of_mem_natChars (hdigits ▸ List.mem_cons_self))⟩

theorem starts_of_digit {c : Char} (h : c = '-' ∨ isDigit c = true) : Starts c := by
  rcases h with rfl | h
  · exact ⟨by decide, by decide⟩
  · constructor
    · by_contra hspace
      simp only [isSpace, Bool.not_eq_false, Bool.or_eq_true, beq_iff_eq] at hspace
      rcases hspace with ((rfl | rfl) | rfl) | rfl <;> exact absurd h (by decide)
    · rintro rfl
      exact absurd h (by decide)

theorem head_chars (v : Value) : ∃ c cs, v.chars = c :: cs ∧ Starts c := by
  cases v with
  | null => exact ⟨'n', _, rfl, by decide, by decide⟩
  | bool b => cases b <;> exact ⟨_, _, rfl, by decide, by decide⟩
  | text s => exact ⟨'"', _, rfl, by decide, by decide⟩
  | list items => exact ⟨'[', _, rfl, by decide, by decide⟩
  | object members => exact ⟨'\x7b', _, rfl, by decide, by decide⟩
  | number n =>
    cases n with
    | float x =>
      obtain ⟨c, cs, hchars, hc⟩ := head_floatText x
      exact ⟨c, cs, hchars, starts_of_digit hc⟩
    | int i hi =>
      obtain ⟨c, cs, hchars, hc⟩ := head_intChars i
      exact ⟨c, cs, hchars, starts_of_digit hc⟩

end Value

/-! ## Reading what was written -/

theorem skipSpace_cons {c : Char} (h : isSpace c = false) (s : List Char) :
    skipSpace (c :: s) = c :: s := by
  simp [skipSpace, h]

theorem nextItem_first {c : Char} (h : Value.Starts c) (s : List Char) :
    nextItem true (c :: s) = .ok (.entry (c :: s)) := by
  rw [nextItem, skipSpace_cons h.1]
  split <;> simp_all [Value.Starts]

theorem nextItem_comma {c : Char} (h : Value.Starts c) (s : List Char) :
    nextItem false (',' :: c :: s) = .ok (.entry (c :: s)) := by
  have hspace := skipSpace_cons h.1 s
  rw [nextItem, skipSpace_cons (by decide)]
  simp [hspace, h.2]

theorem nextMember_first (s : List Char) :
    nextMember true ('"' :: s) = .ok (.entry s) := rfl

theorem nextMember_comma (s : List Char) :
    nextMember false (',' :: '"' :: s) = .ok (.entry s) := rfl

theorem readColon_cons (s : List Char) : readColon (':' :: s) = .ok s := rfl

theorem readScalar_number {i : Int} (h : Integral i) {rest : List Char} (hrest : NumberEnds rest) :
    readScalar (intChars i ++ rest) = .ok (.number (.int i h), rest) := by
  obtain ⟨c, cs, hchars, hc⟩ := Value.head_intChars i
  have hread := readNumber_intChars h hrest
  rw [hchars, List.cons_append] at hread ⊢
  rw [readScalar_digit (by simpa using hc), hread]
  rfl

/-- A scalar is none of the brackets. -/
theorem readValue_scalar {fuel room : Nat} {c : Char} {s : List Char} (hspace : isSpace c = false)
    (hlist : c ≠ '[') (hobject : c ≠ '\x7b') :
    readValue (fuel + 1) room (c :: s) = readScalar (c :: s) := by
  rw [readValue, skipSpace_cons hspace]
  split <;> simp_all

section
variable {fuel room : Nat} {first : Bool} {v : Value} {s more rest : List Char}

theorem readItems_entry {items : List Value}
    (hnext : nextItem first s = .ok (.entry (v.chars ++ more)))
    (hread : readValue fuel room (v.chars ++ more) = .ok (v, more))
    (htail : readItems fuel room false more = .ok (items, rest)) :
    readItems (fuel + 1) room first s = .ok (v :: items, rest) := by
  rw [readItems, hnext]
  simp only [bind, Except.bind, hread, htail]
  rfl

theorem readMembers_entry {key : String} {inside : List Char} {members : List (String × Value)}
    (hnext : nextMember first s = .ok (.entry inside))
    (hkey : readText [] inside = .ok (key, ':' :: (v.chars ++ more)))
    (hread : readValue fuel room (v.chars ++ more) = .ok (v, more))
    (htail : readMembers fuel room false more = .ok (members, rest)) :
    readMembers (fuel + 1) room first s = .ok ((key, v) :: members, rest) := by
  rw [readMembers, hnext]
  simp only [bind, Except.bind, hkey, readColon_cons, hread, htail]
  rfl

theorem nextItem_chars (v : Value) (more : List Char) :
    nextItem true (v.chars ++ more) = .ok (.entry (v.chars ++ more)) ∧
      nextItem false (',' :: (v.chars ++ more)) = .ok (.entry (v.chars ++ more)) := by
  obtain ⟨c, cs, hchars, hstarts⟩ := Value.head_chars v
  rw [hchars, List.cons_append]
  exact ⟨nextItem_first hstarts _, nextItem_comma hstarts _⟩

theorem readValue_list {items : List Value} (hroom : 1 < room)
    (hitems : readItems fuel (room - 1) true s = .ok (items, rest)) :
    readValue (fuel + 1) room ('[' :: s) = .ok (.list items, rest) := by
  rw [readValue, skipSpace_cons (by decide)]
  simp only [if_neg (Nat.not_le.mpr hroom), hitems]
  rfl

theorem readValue_object {members : List (String × Value)} (hroom : 1 < room)
    (hmembers : readMembers fuel (room - 1) true s = .ok (members, rest)) :
    readValue (fuel + 1) room ('\x7b' :: s) = .ok (.ofMembers members, rest) := by
  rw [readValue, skipSpace_cons (by decide)]
  simp only [if_neg (Nat.not_le.mpr hroom), hmembers]
  rfl

theorem numberEnds_itemTail (items : List Value) (rest : List Char) :
    NumberEnds (Value.itemTail items ++ ']' :: rest) := by
  cases items <;> exact numberEnds_cons (by simp) _

theorem numberEnds_memberTail (members : List (String × Value)) (rest : List Char) :
    NumberEnds (Value.memberTail members ++ '\x7d' :: rest) := by
  cases members <;> exact numberEnds_cons (by simp) _

end

mutual
/-- A value is read back, whatever follows that does not lengthen a number. -/
theorem readValue_chars (v : Value) (fuel room : Nat) (rest : List Char) (hfree : v.FloatFree)
    (hordered : v.Ordered) (hroom : v.depth < room) (hfuel : 2 * v.chars.length ≤ fuel)
    (hrest : NumberEnds rest) : readValue fuel room (v.chars ++ rest) = .ok (v, rest) := by
  have hchars : 0 < v.chars.length := by
    obtain ⟨c, cs, hchars, -⟩ := Value.head_chars v
    simp [hchars]
  obtain ⟨fuel, rfl⟩ : ∃ n, fuel = n + 1 := ⟨fuel - 1, by omega⟩
  match v with
  | .null => exact readValue_scalar (by decide) (by decide) (by decide)
  | .bool true => exact readValue_scalar (by decide) (by decide) (by decide)
  | .bool false => exact readValue_scalar (by decide) (by decide) (by decide)
  | .number (.float x) => exact absurd hfree (by simp [Value.FloatFree])
  | .number (.int i hi) =>
    obtain ⟨c, cs, hcs, hc⟩ := Value.head_intChars i
    have hscalar := readScalar_number hi hrest
    rw [Value.chars, Number.chars]
    rw [hcs, List.cons_append] at hscalar ⊢
    rw [readValue_scalar (Value.starts_of_digit hc).1, hscalar]
    · rintro rfl
      simp [isDigit] at hc
    · rintro rfl
      simp [isDigit] at hc
  | .text text =>
    obtain ⟨inside, hinside, hread⟩ := readText_textChars text rest
    rw [Value.chars, hinside, readValue_scalar (by decide) (by decide) (by decide), readScalar,
      hread]
    rfl
  | .list [] =>
    rw [Value.chars, Value.itemChars] at hfuel ⊢
    have htwo : 2 * 2 ≤ fuel + 1 := hfuel
    obtain ⟨fuel, rfl⟩ : ∃ n, fuel = n + 1 := ⟨fuel - 1, by omega⟩
    rw [Value.depth] at hroom
    have hone : 1 < room := by omega
    exact readValue_list hone rfl
  | .list (w :: items) =>
    rw [Value.depth, Value.depthItems] at hroom
    rw [Value.chars, Value.itemChars_cons] at hfuel ⊢
    simp only [List.length_cons, List.length_append, List.length_nil] at hfuel
    obtain ⟨fuel, rfl⟩ : ∃ n, fuel = n + 1 := ⟨fuel - 1, by omega⟩
    have hread := readValue_chars w fuel (room - 1) (Value.itemTail items ++ ']' :: rest) hfree.1
      hordered.1 (by omega) (by omega) (numberEnds_itemTail items rest)
    have htail := readItems_tail items fuel (room - 1) rest hfree.2 hordered.2 (by omega) (by omega)
    have htext : '[' :: (w.chars ++ Value.itemTail items) ++ [']'] ++ rest =
        '[' :: (w.chars ++ (Value.itemTail items ++ ']' :: rest)) := by simp
    rw [htext]
    exact readValue_list (by omega) (readItems_entry (nextItem_chars _ _).1 hread htail)
  | .object [] =>
    rw [Value.chars, Value.memberChars] at hfuel ⊢
    have htwo : 2 * 2 ≤ fuel + 1 := hfuel
    obtain ⟨fuel, rfl⟩ : ∃ n, fuel = n + 1 := ⟨fuel - 1, by omega⟩
    rw [Value.depth] at hroom
    have hone : 1 < room := by omega
    have hmembers : readMembers (fuel + 1) (room - 1) true ('\x7d' :: rest) = .ok ([], rest) := rfl
    exact readValue_object hone hmembers
  | .object ((key, w) :: members) =>
    rw [Value.depth, Value.depthMembers] at hroom
    rw [Value.chars, Value.memberChars_cons] at hfuel
    simp only [List.length_cons, List.length_append, List.length_nil] at hfuel
    obtain ⟨fuel, rfl⟩ : ∃ n, fuel = n + 1 := ⟨fuel - 1, by omega⟩
    have hread := readValue_chars w fuel (room - 1) (Value.memberTail members ++ '\x7d' :: rest)
      hfree.1 hordered.2.1 (by omega) (by omega) (numberEnds_memberTail members rest)
    have htail := readMembers_tail members fuel (room - 1) rest hfree.2 hordered.2.2 (by omega)
      (by omega)
    obtain ⟨inside, hinside, hkey⟩ := Value.memberChars_inside key w members rest
    have htext : (Value.object ((key, w) :: members)).chars ++ rest = '\x7b' :: '"' :: inside := by
      rw [Value.chars, ← hinside]
      simp
    rw [htext, ← ofMembers_of_ordered hordered.1]
    exact readValue_object (by omega)
      (readMembers_entry (nextMember_first inside) hkey hread htail)

/-- So are the items of a list that follow another one. -/
theorem readItems_tail (items : List Value) (fuel room : Nat) (rest : List Char)
    (hfree : Value.FloatFreeItems items) (hordered : Value.OrderedItems items)
    (hroom : Value.depthItems items < room)
    (hfuel : 2 * (Value.itemTail items).length + 1 ≤ fuel) :
    readItems fuel room false (Value.itemTail items ++ ']' :: rest) = .ok (items, rest) := by
  obtain ⟨fuel, rfl⟩ : ∃ n, fuel = n + 1 := ⟨fuel - 1, by omega⟩
  match items with
  | [] => rfl
  | v :: items =>
    rw [Value.depthItems] at hroom
    rw [Value.itemTail] at hfuel ⊢
    rw [List.cons_append, List.append_assoc]
    simp only [List.length_cons, List.length_append] at hfuel
    have hread := readValue_chars v fuel room (Value.itemTail items ++ ']' :: rest) hfree.1
      hordered.1 (by omega) (by omega) (numberEnds_itemTail items rest)
    have htail := readItems_tail items fuel room rest hfree.2 hordered.2 (by omega) (by omega)
    exact readItems_entry (nextItem_chars _ _).2 hread htail

/-- And the members of an object. -/
theorem readMembers_tail (members : List (String × Value)) (fuel room : Nat) (rest : List Char)
    (hfree : Value.FloatFreeMembers members) (hordered : Value.OrderedMembers members)
    (hroom : Value.depthMembers members < room)
    (hfuel : 2 * (Value.memberTail members).length + 1 ≤ fuel) :
    readMembers fuel room false (Value.memberTail members ++ '\x7d' :: rest) =
      .ok (members, rest) := by
  obtain ⟨fuel, rfl⟩ : ∃ n, fuel = n + 1 := ⟨fuel - 1, by omega⟩
  match members with
  | [] => rfl
  | (key, v) :: members =>
    rw [Value.depthMembers] at hroom
    rw [Value.memberTail] at hfuel
    simp only [List.length_cons, List.length_append] at hfuel
    have hread := readValue_chars v fuel room (Value.memberTail members ++ '\x7d' :: rest) hfree.1
      hordered.1 (by omega) (by omega) (numberEnds_memberTail members rest)
    have htail := readMembers_tail members fuel room rest hfree.2 hordered.2 (by omega) (by omega)
    obtain ⟨inside, hinside, hkey⟩ := Value.memberTail_inside key v members rest
    rw [hinside]
    exact readMembers_entry (nextMember_comma inside) hkey hread htail
end

/-! ## On one line -/

theorem newline_not_mem_intChars (i : Int) : '\n' ∉ intChars i := by
  have hnat : ∀ n, '\n' ∉ natChars n := fun n h =>
    absurd (isDigit_of_mem_natChars h) (by decide)
  cases i with
  | ofNat n => exact hnat n
  | negSucc n =>
    rw [intChars, List.mem_cons, not_or]
    exact ⟨by decide, hnat (n + 1)⟩

mutual
theorem newline_not_mem_chars (v : Value) (hfree : v.FloatFree) : '\n' ∉ v.chars := by
  match v with
  | .null | .bool true | .bool false => decide
  | .number (.float x) => exact absurd hfree (by simp [Value.FloatFree])
  | .number (.int i hi) => exact newline_not_mem_intChars i
  | .text text => exact newline_not_mem_textChars text
  | .list [] | .object [] => decide
  | .list (w :: items) =>
    have hw := newline_not_mem_chars w hfree.1
    have htail := newline_not_mem_itemTail items hfree.2
    simp [Value.chars, Value.itemChars_cons, hw, htail]
  | .object ((key, w) :: members) =>
    have hkey := newline_not_mem_textChars key
    have hw := newline_not_mem_chars w hfree.1
    have htail := newline_not_mem_memberTail members hfree.2
    simp [Value.chars, Value.memberChars_cons, hkey, hw, htail]

theorem newline_not_mem_itemTail (items : List Value) (hfree : Value.FloatFreeItems items) :
    '\n' ∉ Value.itemTail items := by
  match items with
  | [] => simp [Value.itemTail]
  | w :: items =>
    have hw := newline_not_mem_chars w hfree.1
    have htail := newline_not_mem_itemTail items hfree.2
    simp [Value.itemTail, hw, htail]

theorem newline_not_mem_memberTail (members : List (String × Value))
    (hfree : Value.FloatFreeMembers members) : '\n' ∉ Value.memberTail members := by
  match members with
  | [] => simp [Value.memberTail]
  | (key, w) :: members =>
    have hkey := newline_not_mem_textChars key
    have hw := newline_not_mem_chars w hfree.1
    have htail := newline_not_mem_memberTail members hfree.2
    simp [Value.memberTail, hkey, hw, htail]
end

end GameRelay.Json
