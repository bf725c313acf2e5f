import GameRelay.Proofs.Json.RoundTrip

/-!
# Records as they are written and read

A record is written as an object with one member per field, in the order of the
fields. It is read back from the text and from the value alike. Between two
members the fields up to some number are filled, and the others are not.
-/

set_option autoImplicit false

namespace GameRelay.Json

def Kind.value : (k : Kind) → k.Carrier → Value
  | .any, v => v
  | .text, s => .text s
  | .textOrNull, some s => .text s
  | .textOrNull, none => .null

theorem toKind_value (k : Kind) (c : k.Carrier) : (k.value c).toKind k = .ok c := by
  cases k with
  | any => rfl
  | text => rfl
  | textOrNull => cases c <;> rfl

def Row.members : (fs : List Field) → Row fs → List (String × Value)
  | [], _ => []
  | f :: fs, (c, row) => (f.name, f.kind.value c) :: Row.members fs row

def Slots.upTo : (fs : List Field) → Row fs → Nat → Slots fs
  | [], _, _ => ()
  | _ :: fs, (_, row), 0 => (none, Slots.upTo fs row 0)
  | _ :: fs, (c, row), n + 1 => (some c, Slots.upTo fs row n)

theorem upTo_zero (fs : List Field) (row : Row fs) : Slots.upTo fs row 0 = Slots.empty fs := by
  induction fs with
  | nil => rfl
  | cons f fs ih =>
    obtain ⟨c, row⟩ := row
    rw [Slots.upTo, ih row, Slots.empty]

theorem close_upTo (fs : List Field) (row : Row fs) :
    (Slots.upTo fs row fs.length).close = .ok row := by
  induction fs with
  | nil => rfl
  | cons f fs ih =>
    obtain ⟨c, row⟩ := row
    rw [List.length_cons, Slots.upTo, Slots.close]
    simp only [Option.some_or, ih row]
    rfl

theorem length_members (fs : List Field) (row : Row fs) :
    (Row.members fs row).length = fs.length := by
  induction fs with
  | nil => rfl
  | cons f fs ih =>
    obtain ⟨c, row⟩ := row
    rw [Row.members, List.length_cons, ih row, List.length_cons]

theorem name_of_member {fs : List Field} {row : Row fs} {n : Nat} {key : String} {v : Value}
    (h : (Row.members fs row)[n]? = some (key, v)) : key ∈ fs.map Field.name := by
  induction fs generalizing n with
  | nil => simp [Row.members] at h
  | cons f fs ih =>
    obtain ⟨c, row⟩ := row
    rw [Row.members] at h
    cases n with
    | zero =>
      obtain ⟨rfl, -⟩ := Prod.mk.inj (Option.some.inj h)
      exact List.mem_cons_self
    | succ n => exact List.mem_cons_of_mem _ (ih h)

/-! ## From a value -/

theorem putSlot_upTo {fs : List Field} (hnames : (fs.map Field.name).Nodup) {row : Row fs} {n : Nat}
    {key : String} {v : Value} (h : (Row.members fs row)[n]? = some (key, v)) :
    putSlot key v fs (Slots.upTo fs row n) = .ok (Slots.upTo fs row (n + 1)) := by
  induction fs generalizing n with
  | nil => simp [Row.members] at h
  | cons f fs ih =>
    obtain ⟨c, row⟩ := row
    rw [Row.members] at h
    rw [List.map_cons, List.nodup_cons] at hnames
    cases n with
    | zero =>
      obtain ⟨rfl, rfl⟩ := Prod.mk.inj (Option.some.inj h)
      rw [Slots.upTo, putSlot, if_pos rfl, toKind_value]
      rfl
    | succ n =>
      have hne : f.name ≠ key := fun hname => hnames.1 (hname ▸ name_of_member h)
      rw [Slots.upTo, putSlot, if_neg hne, ih hnames.2 h]
      rfl

theorem putSlots_upTo {fs : List Field} (hnames : (fs.map Field.name).Nodup) (row : Row fs)
    (rest : List (String × Value)) (n : Nat) (h : (Row.members fs row).drop n = rest) :
    putSlots fs rest (Slots.upTo fs row n) = .ok (Slots.upTo fs row (n + rest.length)) := by
  induction rest generalizing n with
  | nil => rfl
  | cons member rest ih =>
    obtain ⟨key, v⟩ := member
    have hmember : (Row.members fs row)[n]? = some (key, v) := by
      rw [← List.head?_drop, h, List.head?_cons]
    have hrest : (Row.members fs row).drop (n + 1) = rest := by
      rw [← List.tail_drop, h, List.tail_cons]
    rw [putSlots, putSlot_upTo hnames hmember]
    simp only [bind, Except.bind]
    rw [ih (n + 1) hrest, List.length_cons]
    congr 2
    omega

/-- A record is read back from its value. -/
theorem ofValue_members {schema : Schema} (hnames : (schema.fields.map Field.name).Nodup)
    (row : Row schema.fields) :
    schema.ofValue (.object (Row.members schema.fields row)) = .ok row := by
  have hslots := putSlots_upTo hnames row (Row.members schema.fields row) 0 rfl
  rw [upTo_zero, Nat.zero_add, length_members] at hslots
  rw [Schema.ofValue, hslots]
  exact close_upTo schema.fields row

/-! ## From a text -/

structure Readable (room : Nat) (v : Value) : Prop where
  free : v.FloatFree
  ordered : v.Ordered
  depth : v.depth < room

theorem readable_text (text : String) {room : Nat} (h : 0 < room) : Readable room (.text text) :=
  ⟨trivial, trivial, h⟩

theorem readable_int {i : Int} (hi : Integral i) {room : Nat} (h : 0 < room) :
    Readable room (.number (.int i hi)) :=
  ⟨trivial, trivial, h⟩

section
variable {fuel room : Nat} {rest : List Char}

theorem readKind_value {k : Kind} {c : k.Carrier} (hc : Readable room (k.value c))
    (hfuel : 2 * (k.value c).chars.length ≤ fuel) (hrest : NumberEnds rest) :
    readKind fuel room k ((k.value c).chars ++ rest) = .ok (c, rest) := by
  have hstring : ∀ text : String, readString ((Value.text text).chars ++ rest) =
      .ok (text, rest) := by
    intro text
    obtain ⟨inside, hinside, hread⟩ := readText_textChars text rest
    rw [Value.chars, hinside, readString, skipSpace_cons (by decide)]
    exact hread
  cases k with
  | any => exact readValue_chars _ fuel room rest hc.free hc.ordered hc.depth hfuel hrest
  | text => exact hstring c
  | textOrNull =>
    cases c with
    | none => rfl
    | some text =>
      obtain ⟨inside, hinside, -⟩ := readText_textChars text rest
      have hread := hstring text
      rw [Value.chars, hinside] at hread
      have hnull : readStringOrNull ('"' :: inside) =
          (readString ('"' :: inside)).map fun read => (some read.1, read.2) := rfl
      rw [Kind.value, Value.chars, hinside, readKind, hnull, hread]
      rfl

theorem fillSlot_upTo {fs : List Field} (hnames : (fs.map Field.name).Nodup) {row : Row fs}
    {n : Nat} {key : String} {v : Value} (h : (Row.members fs row)[n]? = some (key, v))
    (hv : Readable room v) (hfuel : 2 * v.chars.length ≤ fuel) (hrest : NumberEnds rest) :
    fillSlot fuel room key fs (Slots.upTo fs row n) (':' :: (v.chars ++ rest)) =
      .ok (Slots.upTo fs row (n + 1), rest) := by
  induction fs generalizing n with
  | nil => simp [Row.members] at h
  | cons f fs ih =>
    obtain ⟨c, row⟩ := row
    rw [Row.members] at h
    rw [List.map_cons, List.nodup_cons] at hnames
    cases n with
    | zero =>
      obtain ⟨rfl, rfl⟩ := Prod.mk.inj (Option.some.inj h)
      have hread := readKind_value hv hfuel hrest
      rw [Slots.upTo, fillSlot, if_pos rfl]
      simp only [readColon_cons, bind, Except.bind, hread]
      rfl
    | succ n =>
      have hne : f.name ≠ key := fun hname => hnames.1 (hname ▸ name_of_member h)
      rw [Slots.upTo, fillSlot, if_neg hne]
      simp only [ih hnames.2 h, bind, Except.bind]
      rfl

/-- One member, up to the text behind it. -/
theorem readSlots_member {fs : List Field} (hnames : (fs.map Field.name).Nodup) {row : Row fs}
    (hrow : ∀ member ∈ Row.members fs row, Readable room member.2) {n : Nat} {key : String}
    {v : Value} (hmember : (Row.members fs row)[n]? = some (key, v))
    (hfuel : 2 * v.chars.length ≤ fuel) {first : Bool} {s inside more : List Char}
    {last : Slots fs} (hnext : nextMember first s = .ok (.entry inside))
    (hkey : readText [] inside = .ok (key, ':' :: (v.chars ++ more))) (hmore : NumberEnds more)
    (htail : readSlots fs fuel room false (Slots.upTo fs row (n + 1)) more = .ok (last, rest)) :
    readSlots fs (fuel + 1) room first (Slots.upTo fs row n) s = .ok (last, rest) := by
  have hv := hrow _ (List.mem_of_getElem? hmember)
  have hfill := fillSlot_upTo hnames hmember hv hfuel hmore
  rw [readSlots, hnext]
  simp only [bind, Except.bind, hkey, hfill, htail]

theorem readSlots_tail {fs : List Field} (hnames : (fs.map Field.name).Nodup) (row : Row fs)
    (hrow : ∀ member ∈ Row.members fs row, Readable room member.2)
    (members : List (String × Value)) (n fuel : Nat) (h : (Row.members fs row).drop n = members)
    (hfuel : 2 * (Value.memberTail members).length + 1 ≤ fuel) :
    readSlots fs fuel room false (Slots.upTo fs row n)
      (Value.memberTail members ++ '\x7d' :: rest) =
      .ok (Slots.upTo fs row (n + members.length), rest) := by
  induction members generalizing n fuel with
  | nil =>
    obtain ⟨fuel, rfl⟩ : ∃ m, fuel = m + 1 := ⟨fuel - 1, by omega⟩
    rfl
  | cons member members ih =>
    obtain ⟨key, v⟩ := member
    obtain ⟨fuel, rfl⟩ : ∃ m, fuel = m + 1 := ⟨fuel - 1, by omega⟩
    rw [Value.memberTail] at hfuel
    simp only [List.length_cons, List.length_append] at hfuel
    have hmember : (Row.members fs row)[n]? = some (key, v) := by
      rw [← List.head?_drop, h, List.head?_cons]
    have hmembers : (Row.members fs row).drop (n + 1) = members := by
      rw [← List.tail_drop, h, List.tail_cons]
    have htail := ih (n + 1) fuel hmembers (by omega)
    obtain ⟨inside, hinside, hkey⟩ := Value.memberTail_inside key v members rest
    have hlength : n + ((key, v) :: members).length = n + 1 + members.length := by
      rw [List.length_cons]
      omega
    rw [hinside, hlength]
    exact readSlots_member hnames hrow hmember (by omega) (nextMember_comma inside) hkey
      (numberEnds_memberTail members rest) htail

/-- All members of a record, from behind its opening bracket. -/
theorem readSlots_members {fs : List Field} (hnames : (fs.map Field.name).Nodup) (row : Row fs)
    (hrow : ∀ member ∈ Row.members fs row, Readable room member.2)
    (hfuel : 2 * (Value.memberChars (Row.members fs row)).length + 1 ≤ fuel) :
    readSlots fs fuel room true (Slots.empty fs)
      (Value.memberChars (Row.members fs row) ++ '\x7d' :: rest) =
      .ok (Slots.upTo fs row fs.length, rest) := by
  obtain ⟨fuel, rfl⟩ : ∃ m, fuel = m + 1 := ⟨fuel - 1, by omega⟩
  rw [← length_members fs row, ← upTo_zero fs row]
  cases hmembers : Row.members fs row with
  | nil => rfl
  | cons member members =>
    obtain ⟨key, v⟩ := member
    rw [hmembers, Value.memberChars_cons] at hfuel
    simp only [List.length_cons, List.length_append] at hfuel
    have hmember : (Row.members fs row)[0]? = some (key, v) := by rw [hmembers]; rfl
    have hrest : (Row.members fs row).drop 1 = members := by rw [hmembers]; rfl
    have htail : readSlots fs fuel room false (Slots.upTo fs row 1)
        (Value.memberTail members ++ '\x7d' :: rest) = _ :=
      readSlots_tail hnames row hrow members 1 fuel hrest (by omega)
    obtain ⟨inside, hinside, hkey⟩ := Value.memberChars_inside key v members rest
    rw [hinside, List.length_cons, Nat.add_comm members.length]
    exact readSlots_member hnames hrow hmember (by omega) (nextMember_first inside) hkey
      (numberEnds_memberTail members rest) htail

theorem read_members {schema : Schema} (hnames : (schema.fields.map Field.name).Nodup)
    (row : Row schema.fields)
    (hrow : ∀ member ∈ Row.members schema.fields row, Readable (depthLimit - 1) member.2)
    (hfuel : 2 * (Value.memberChars (Row.members schema.fields row)).length + 1 ≤ fuel) :
    schema.read fuel
      ('\x7b' :: Value.memberChars (Row.members schema.fields row) ++ '\x7d' :: rest) =
      .ok (row, rest) := by
  rw [Schema.read, List.cons_append, skipSpace_cons (by decide)]
  simp only [readSlots_members hnames row hrow hfuel, bind, Except.bind, close_upTo]
  rfl

/-- A record is read back from its text, spaces behind it or not. -/
theorem parse_members {schema : Schema} (hnames : (schema.fields.map Field.name).Nodup)
    (row : Row schema.fields)
    (hrow : ∀ member ∈ Row.members schema.fields row, Readable (depthLimit - 1) member.2)
    (hspace : skipSpace rest = []) :
    schema.parse (String.ofList
      ('\x7b' :: Value.memberChars (Row.members schema.fields row) ++ '\x7d' :: rest)) =
      .ok row := by
  have hend : readEnd rest = .ok () := by rw [readEnd, hspace]
  rw [Schema.parse, readWith, String.toList_ofList, read_members hnames row hrow]
  · simp only [bind, Except.bind, hend]
    rfl
  · simp only [List.length_cons, List.length_append]
    omega

end

end GameRelay.Json
