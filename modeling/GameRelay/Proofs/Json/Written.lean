import GameRelay.Proofs.Json.Extension.Record
import GameRelay.Proofs.Json.Record

/-!
# How far a written value is read

A reader that takes a written value at all takes the whole of it. A floating-point
number may come back as another one, but what stands behind it is not touched.
-/

set_option autoImplicit false

namespace GameRelay.Json

open GameRelay.Decimal

section
variable {fuel room : Nat} {first : Bool} {w : Value} {s r rest : List Char}

theorem readScalar_of_readValue {c : Char} (hspace : isSpace c = false) (hlist : c ≠ '[')
    (hobject : c ≠ '\x7b') (h : readValue fuel room (c :: s) = .ok (w, r)) :
    readScalar (c :: s) = .ok (w, r) := by
  obtain ⟨fuel, rfl, -⟩ := readValue_cases h
  rwa [readValue_scalar hspace hlist hobject] at h

theorem readItems_of_readValue (h : readValue fuel room ('[' :: s) = .ok (w, r)) :
    ∃ fuel' items, readItems fuel' (room - 1) true s = .ok (items, r) := by
  obtain ⟨fuel, -, ⟨more, items, hs, -, hitems, -⟩ | ⟨more, members, hs, -⟩ |
    ⟨c, more, hs, hlist, -⟩⟩ := readValue_cases h
  · obtain rfl : s = more := by simpa [skipSpace_cons (by decide : isSpace '[' = false)] using hs
    exact ⟨fuel, items, hitems⟩
  · simp [skipSpace_cons (by decide : isSpace '[' = false)] at hs
  · rw [skipSpace_cons (by decide)] at hs
    exact absurd (List.cons.inj hs).1.symm hlist

theorem readMembers_of_readValue (h : readValue fuel room ('\x7b' :: s) = .ok (w, r)) :
    ∃ fuel' members, readMembers fuel' (room - 1) true s = .ok (members, r) := by
  obtain ⟨fuel, -, ⟨more, items, hs, -⟩ | ⟨more, members, hs, -, hmembers, -⟩ |
    ⟨c, more, hs, -, hobject, -⟩⟩ := readValue_cases h
  · simp [skipSpace_cons (by decide : isSpace '\x7b' = false)] at hs
  · obtain rfl : s = more := by
      simpa [skipSpace_cons (by decide : isSpace '\x7b' = false)] using hs
    exact ⟨fuel, members, hmembers⟩
  · rw [skipSpace_cons (by decide)] at hs
    exact absurd (List.cons.inj hs).1.symm hobject

theorem rest_of_readScalar {x : Binary64} (hrest : NumberEnds rest)
    (h : readScalar (floatText x ++ rest) = .ok (w, r)) : r = rest := by
  obtain ⟨c, cs, hchars, hc⟩ := head_floatText x
  rw [hchars, List.cons_append, readScalar_digit (by simpa using hc), ← List.cons_append,
    ← hchars] at h
  obtain ⟨⟨n, left⟩, hnumber, hw⟩ := ok_of_map h
  obtain ⟨-, rfl⟩ := Prod.mk.inj hw
  exact rest_of_readNumber hrest hnumber

theorem rest_of_number {n : Number} (hrest : NumberEnds rest)
    (h : readValue fuel room (n.chars ++ rest) = .ok (w, r)) : r = rest := by
  have hstart : ∃ c cs, n.chars = c :: cs ∧ (c = '-' ∨ isDigit c = true) := by
    cases n with
    | int i hi => exact Value.head_intChars i
    | float x => exact head_floatText x
  obtain ⟨c, cs, hchars, hc⟩ := hstart
  have hscalar : readScalar (n.chars ++ rest) = .ok (w, r) := by
    rw [hchars, List.cons_append] at h ⊢
    apply readScalar_of_readValue (Value.starts_of_digit hc).1 _ _ h
    · rintro rfl
      simp [isDigit] at hc
    · rintro rfl
      simp [isDigit] at hc
  cases n with
  | int i hi =>
    have hread : readScalar (intChars i ++ rest) = .ok (w, r) := hscalar
    rw [readScalar_number hi hrest] at hread
    exact (Prod.mk.inj (Except.ok.inj hread)).2.symm
  | float x => exact rest_of_readScalar hrest hscalar

/-- An item of which it is known where it starts. -/
theorem readItems_of_entry {items : List Value} {start : List Char}
    (hnext : nextItem first s = .ok (.entry start))
    (h : readItems fuel room first s = .ok (items, r)) :
    ∃ fuel' v left more, readValue fuel' room start = .ok (v, left) ∧
      readItems fuel' room false left = .ok (more, r) := by
  obtain ⟨fuel', -, ⟨hturn, -⟩ | ⟨start', v, left, more, hturn, hvalue, hmore, -⟩⟩ :=
    readItems_cases h
  · exact nomatch hnext.symm.trans hturn
  · obtain rfl := Turn.entry.inj (Except.ok.inj (hnext.symm.trans hturn))
    exact ⟨fuel', v, left, more, hvalue, hmore⟩

/-- A member of which it is known where its name starts, and where its value does. -/
theorem readMembers_of_entry {members : List (String × Value)} {inside start : List Char}
    {key : String} (hnext : nextMember first s = .ok (.entry inside))
    (hkey : readText [] inside = .ok (key, ':' :: start))
    (h : readMembers fuel room first s = .ok (members, r)) :
    ∃ fuel' v left more, readValue fuel' room start = .ok (v, left) ∧
      readMembers fuel' room false left = .ok (more, r) := by
  obtain ⟨fuel', -, ⟨hturn, -⟩ | ⟨inside', key', colon, start', v, left, more, hturn, hkey', hcolon,
    hvalue, hmore, -⟩⟩ := readMembers_cases h
  · exact nomatch hnext.symm.trans hturn
  · obtain rfl := Turn.entry.inj (Except.ok.inj (hnext.symm.trans hturn))
    obtain ⟨-, rfl⟩ := Prod.mk.inj (Except.ok.inj (hkey.symm.trans hkey'))
    obtain rfl := Except.ok.inj ((readColon_cons start).symm.trans hcolon)
    exact ⟨fuel', v, left, more, hvalue, hmore⟩

end

mutual
theorem rest_of_readValue (v : Value) {fuel room : Nat} {w : Value} {r rest : List Char}
    (hrest : NumberEnds rest) (h : readValue fuel room (v.chars ++ rest) = .ok (w, r)) :
    r = rest := by
  match v with
  | .null | .bool true | .bool false =>
    have hscalar := readScalar_of_readValue (by decide) (by decide) (by decide) h
    exact (Prod.mk.inj (Except.ok.inj hscalar)).2.symm
  | .number n => exact rest_of_number hrest h
  | .text text =>
    obtain ⟨inside, hinside, hread⟩ := readText_textChars text rest
    rw [Value.chars, hinside] at h
    have hscalar := readScalar_of_readValue (by decide) (by decide) (by decide) h
    rw [readScalar, hread] at hscalar
    exact (Prod.mk.inj (Except.ok.inj hscalar)).2.symm
  | .list [] =>
    obtain ⟨fuel', items, hitems⟩ := readItems_of_readValue h
    obtain ⟨fuel', -, ⟨hturn, -⟩ | ⟨start, v, left, more, hturn, -⟩⟩ := readItems_cases hitems
    · exact (Turn.close.inj (Except.ok.inj hturn)).symm
    · cases hturn
  | .list (v :: items) =>
    have htext : (Value.list (v :: items)).chars ++ rest =
        '[' :: (v.chars ++ (Value.itemTail items ++ ']' :: rest)) := by
      simp [Value.chars, Value.itemChars_cons]
    rw [htext] at h
    obtain ⟨fuel', ws, hitems⟩ := readItems_of_readValue h
    obtain ⟨fuel', w, left, more, hvalue, hmore⟩ :=
      readItems_of_entry (nextItem_chars v _).1 hitems
    obtain rfl := rest_of_readValue v (numberEnds_itemTail items rest) hvalue
    exact rest_of_itemTail items hmore
  | .object [] =>
    obtain ⟨fuel', members, hmembers⟩ := readMembers_of_readValue h
    obtain ⟨fuel', -, ⟨hturn, -⟩ | ⟨inside, key, colon, start, v, left, more, hturn, -⟩⟩ :=
      readMembers_cases hmembers
    · exact (Turn.close.inj (Except.ok.inj hturn)).symm
    · cases hturn
  | .object ((key, v) :: members) =>
    obtain ⟨inside, hinside, hkey⟩ := Value.memberChars_inside key v members rest
    have htext : (Value.object ((key, v) :: members)).chars ++ rest = '\x7b' :: '"' :: inside := by
      rw [Value.chars, ← hinside]
      simp
    rw [htext] at h
    obtain ⟨fuel', ws, hmembers⟩ := readMembers_of_readValue h
    obtain ⟨fuel', w, left, more, hvalue, hmore⟩ :=
      readMembers_of_entry (nextMember_first inside) hkey hmembers
    obtain rfl := rest_of_readValue v (numberEnds_memberTail members rest) hvalue
    exact rest_of_memberTail members hmore

theorem rest_of_itemTail (items : List Value) {fuel room : Nat} {ws : List Value}
    {r rest : List Char}
    (h : readItems fuel room false (Value.itemTail items ++ ']' :: rest) = .ok (ws, r)) :
    r = rest := by
  match items with
  | [] =>
    obtain ⟨fuel', -, ⟨hturn, -⟩ | ⟨start, v, left, more, hturn, -⟩⟩ := readItems_cases h
    · exact (Turn.close.inj (Except.ok.inj hturn)).symm
    · cases hturn
  | v :: items =>
    have htext : Value.itemTail (v :: items) ++ ']' :: rest =
        ',' :: (v.chars ++ (Value.itemTail items ++ ']' :: rest)) := by
      simp [Value.itemTail]
    rw [htext] at h
    obtain ⟨fuel', w, left, more, hvalue, hmore⟩ := readItems_of_entry (nextItem_chars v _).2 h
    obtain rfl := rest_of_readValue v (numberEnds_itemTail items rest) hvalue
    exact rest_of_itemTail items hmore

theorem rest_of_memberTail (members : List (String × Value)) {fuel room : Nat}
    {ws : List (String × Value)} {r rest : List Char}
    (h : readMembers fuel room false (Value.memberTail members ++ '\x7d' :: rest) = .ok (ws, r)) :
    r = rest := by
  match members with
  | [] =>
    obtain ⟨fuel', -, ⟨hturn, -⟩ | ⟨inside, key, colon, start, v, left, more, hturn, -⟩⟩ :=
      readMembers_cases h
    · exact (Turn.close.inj (Except.ok.inj hturn)).symm
    · cases hturn
  | (key, v) :: members =>
    obtain ⟨inside, hinside, hkey⟩ := Value.memberTail_inside key v members rest
    rw [hinside] at h
    obtain ⟨fuel', w, left, more, hvalue, hmore⟩ :=
      readMembers_of_entry (nextMember_comma inside) hkey h
    obtain rfl := rest_of_readValue v (numberEnds_memberTail members rest) hvalue
    exact rest_of_memberTail members hmore
end

/-! ## Fields of a written record -/

section
variable {fuel room : Nat} {r rest : List Char}

theorem rest_of_readKind {k : Kind} {c c' : k.Carrier} (hrest : NumberEnds rest)
    (h : readKind fuel room k ((k.value c).chars ++ rest) = .ok (c', r)) : r = rest := by
  cases k with
  | any => exact rest_of_readValue c hrest h
  | text =>
    have hread : readString ((Value.text c).chars ++ rest) = .ok (c, rest) :=
      readKind_value (k := .text) (readable_text c (by decide : 0 < 1)) (Nat.le_refl _) hrest
    exact (Prod.mk.inj (Except.ok.inj (hread.symm.trans h))).2.symm
  | textOrNull =>
    have hreadable : Readable 1 (Kind.textOrNull.value c) := by
      cases c <;> exact ⟨trivial, trivial, Nat.zero_lt_one⟩
    have hread : readStringOrNull ((Kind.textOrNull.value c).chars ++ rest) = .ok (c, rest) :=
      readKind_value hreadable (Nat.le_refl _) hrest
    exact (Prod.mk.inj (Except.ok.inj (hread.symm.trans h))).2.symm

/-- More fuel does not change what is read. -/
theorem value_of_readKind {k : Kind} {c c' : k.Carrier} (hc : Readable room (k.value c))
    (hrest : NumberEnds rest) (hne : rest ≠ [])
    (h : readKind fuel room k ((k.value c).chars ++ rest) = .ok (c', r)) : c' = c := by
  obtain rfl := rest_of_readKind hrest h
  have hmore := readKind_extend (Nat.le_max_left fuel (2 * (k.value c).chars.length)) h hne []
  rw [List.append_nil, readKind_value hc (Nat.le_max_right _ _) hrest] at hmore
  exact (Prod.mk.inj (Except.ok.inj hmore)).1.symm

theorem readSlots_of_entry {fs : List Field} {first : Bool} {slots last : Slots fs}
    {s inside start : List Char} {key : String} (hnext : nextMember first s = .ok (.entry inside))
    (hkey : readText [] inside = .ok (key, start))
    (h : readSlots fs fuel room first slots s = .ok (last, r)) :
    ∃ fuel' filled left, fillSlot fuel' room key fs slots start = .ok (filled, left) ∧
      readSlots fs fuel' room false filled left = .ok (last, r) := by
  cases fuel with
  | zero => simp [readSlots] at h
  | succ fuel =>
    simp only [readSlots, hnext, hkey, bind, Except.bind] at h
    obtain ⟨⟨filled, left⟩, hfill, h⟩ := ok_of_bind h
    exact ⟨fuel, filled, left, hfill, h⟩

def Row.Agree (room : Nat) : (fs : List Field) → Row fs → Row fs → Prop
  | [], _, _ => True
  | f :: fs, (c, row), (c', row') =>
    (Readable room (f.kind.value c) → c' = c) ∧ Row.Agree room fs row row'

def Slots.Agree (room : Nat) : (fs : List Field) → Row fs → Nat → Slots fs → Prop
  | [], _, _, _ => True
  | _ :: fs, (_, row), 0, (slot, slots) => slot = none ∧ Slots.Agree room fs row 0 slots
  | f :: fs, (c, row), n + 1, (slot, slots) =>
    (∃ c', slot = some c' ∧ (Readable room (f.kind.value c) → c' = c)) ∧
      Slots.Agree room fs row n slots

theorem agree_empty (room : Nat) (fs : List Field) (row : Row fs) :
    Slots.Agree room fs row 0 (Slots.empty fs) := by
  induction fs with
  | nil => trivial
  | cons f fs ih => exact ⟨rfl, ih row.2⟩

theorem agree_of_close {fs : List Field} {row row' : Row fs} {slots : Slots fs}
    (hslots : Slots.Agree room fs row fs.length slots) (h : slots.close = .ok row') :
    Row.Agree room fs row row' := by
  induction fs with
  | nil => trivial
  | cons f fs ih =>
    obtain ⟨c, row⟩ := row
    obtain ⟨slot, slots⟩ := slots
    obtain ⟨⟨c', rfl, hc'⟩, hrest⟩ := hslots
    simp only [Slots.close, Option.some_or] at h
    obtain ⟨more, hmore, rfl⟩ := ok_of_map h
    exact ⟨hc', ih hrest hmore⟩

theorem fillSlot_agree {fs : List Field} (hnames : (fs.map Field.name).Nodup) {row : Row fs}
    {n : Nat} {key : String} {v : Value} {slots filled : Slots fs}
    (hslots : Slots.Agree room fs row n slots) (hmember : (Row.members fs row)[n]? = some (key, v))
    (hrest : NumberEnds rest) (hne : rest ≠ [])
    (h : fillSlot fuel room key fs slots (':' :: (v.chars ++ rest)) = .ok (filled, r)) :
    r = rest ∧ Slots.Agree room fs row (n + 1) filled := by
  induction fs generalizing n r with
  | nil => simp [Row.members] at hmember
  | cons f fs ih =>
    obtain ⟨c, row⟩ := row
    obtain ⟨slot, slots⟩ := slots
    rw [Row.members] at hmember
    rw [List.map_cons, List.nodup_cons] at hnames
    cases n with
    | zero =>
      obtain ⟨rfl, rfl⟩ := Prod.mk.inj (Option.some.inj hmember)
      obtain ⟨rfl, hslots⟩ := hslots
      simp only [fillSlot, if_true, readColon_cons, bind, Except.bind] at h
      obtain ⟨⟨c', left⟩, hkind, h⟩ := ok_of_bind h
      obtain ⟨rfl, rfl⟩ := Prod.mk.inj (Except.ok.inj h)
      exact ⟨rest_of_readKind hrest hkind,
        ⟨c', rfl, fun hc => value_of_readKind hc hrest hne hkind⟩, hslots⟩
    | succ n =>
      have hother : f.name ≠ key := fun hname => hnames.1 (hname ▸ name_of_member hmember)
      simp only [fillSlot, if_neg hother] at h
      obtain ⟨⟨more, left⟩, hmore, h⟩ := ok_of_bind h
      obtain ⟨rfl, rfl⟩ := Prod.mk.inj (Except.ok.inj h)
      obtain ⟨hleft, hagree⟩ := ih hnames.2 hslots.2 hmember hmore
      exact ⟨hleft, hslots.1, hagree⟩

theorem readSlots_tail_agree {fs : List Field} (hnames : (fs.map Field.name).Nodup) {row : Row fs}
    {slots last : Slots fs} (members : List (String × Value)) (n : Nat)
    (hmembers : (Row.members fs row).drop n = members) (hslots : Slots.Agree room fs row n slots)
    (h : readSlots fs fuel room false slots (Value.memberTail members ++ '\x7d' :: rest) =
      .ok (last, r)) : Slots.Agree room fs row (n + members.length) last := by
  induction members generalizing n fuel slots with
  | nil =>
    cases fuel with
    | zero => simp [readSlots] at h
    | succ fuel =>
      obtain ⟨rfl, -⟩ := Prod.mk.inj (Except.ok.inj h)
      exact hslots
  | cons member members ih =>
    obtain ⟨key, v⟩ := member
    have hmember : (Row.members fs row)[n]? = some (key, v) := by
      rw [← List.head?_drop, hmembers, List.head?_cons]
    have hmore : (Row.members fs row).drop (n + 1) = members := by
      rw [← List.tail_drop, hmembers, List.tail_cons]
    obtain ⟨inside, hinside, hkey⟩ := Value.memberTail_inside key v members rest
    rw [hinside] at h
    obtain ⟨fuel', filled, left, hfill, h⟩ :=
      readSlots_of_entry (nextMember_comma inside) hkey h
    obtain ⟨rfl, hfilled⟩ := fillSlot_agree hnames hslots hmember
      (numberEnds_memberTail members rest) (by simp) hfill
    have hlength : n + ((key, v) :: members).length = n + 1 + members.length := by
      rw [List.length_cons]
      omega
    rw [hlength]
    exact ih (n + 1) hmore hfilled h

theorem readSlots_members_agree {fs : List Field} (hnames : (fs.map Field.name).Nodup)
    {row : Row fs} {last : Slots fs}
    (h : readSlots fs fuel room true (Slots.empty fs)
      (Value.memberChars (Row.members fs row) ++ '\x7d' :: rest) = .ok (last, r)) :
    Slots.Agree room fs row fs.length last := by
  have hempty := agree_empty room fs row
  cases hmembers : Row.members fs row with
  | nil =>
    have hlength := length_members fs row
    rw [hmembers] at h hlength
    cases fuel with
    | zero => simp [readSlots] at h
    | succ fuel =>
      obtain ⟨rfl, -⟩ := Prod.mk.inj (Except.ok.inj h)
      rw [← hlength]
      exact hempty
  | cons member members =>
    obtain ⟨key, v⟩ := member
    have hmember : (Row.members fs row)[0]? = some (key, v) := by rw [hmembers]; rfl
    have hmore : (Row.members fs row).drop 1 = members := by rw [hmembers]; rfl
    obtain ⟨inside, hinside, hkey⟩ := Value.memberChars_inside key v members rest
    rw [hmembers, hinside] at h
    obtain ⟨fuel', filled, left, hfill, h⟩ := readSlots_of_entry (nextMember_first inside) hkey h
    obtain ⟨rfl, hfilled⟩ := fillSlot_agree hnames hempty hmember
      (numberEnds_memberTail members rest) (by simp) hfill
    have htail := readSlots_tail_agree hnames members 1 hmore hfilled h
    rw [← length_members fs row, hmembers, List.length_cons, Nat.add_comm]
    exact htail

/-- A record that is read from a written one agrees with it, wherever that can be read back. -/
theorem agree_of_parse {schema : Schema} (hnames : (schema.fields.map Field.name).Nodup)
    {row row' : Row schema.fields}
    (h : schema.parse (String.ofList
      ('\x7b' :: Value.memberChars (Row.members schema.fields row) ++ '\x7d' :: rest)) = .ok row') :
    Row.Agree (depthLimit - 1) schema.fields row row' := by
  obtain ⟨left, hread, -⟩ := Schema.read_of_parse h
  rw [Schema.read, List.cons_append, skipSpace_cons (by decide)] at hread
  obtain ⟨⟨slots, last⟩, hslots, hread⟩ := ok_of_bind hread
  have hagree := readSlots_members_agree hnames hslots
  cases hclose : slots.close with
  | error what =>
    simp only [hclose] at hread
    cases hread
  | ok closed =>
    simp only [hclose] at hread
    obtain ⟨rfl, -⟩ := Prod.mk.inj (Except.ok.inj hread)
    exact agree_of_close hagree hclose

end

end GameRelay.Json
