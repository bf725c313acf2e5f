import GameRelay.Proofs.Json.Presented
import GameRelay.Proofs.Json.Printed.Value

/-!
# Records in printed values

A record whose fields are texts is read from the printed text of a value exactly when it
is read from the value. Where both succeed they read the same row; what the value holds
besides is skipped on the one path and never looked at on the other.
-/

set_option autoImplicit false

namespace GameRelay.Json

def Typed (fs : List Field) : Prop := ∀ f ∈ fs, f.kind ≠ .any

section
variable {all : List Field} {fuel room : Nat} {rest : List Char}

theorem skipSpace_number (n : Number) (rest : List Char) :
    ∃ c cs, skipSpace (n.chars ++ rest) = c :: cs ∧ (c = '-' || isDigit c) = true := by
  obtain ⟨c, cs, hchars, hc⟩ := head_number (numberText_chars n)
  refine ⟨c, cs ++ rest, ?_, by simpa using hc⟩
  rw [hchars, List.cons_append, skipSpace_cons (Value.starts_of_digit hc).1]

theorem opens_number (n : Number) (rest : List Char) :
    Opens (n.chars ++ rest) (.number n) rest := by
  obtain ⟨c, cs, hs, hc⟩ := skipSpace_number n rest
  exact .other hs (ne_of_digit hc (by decide)) (ne_of_digit hc (by decide)) (by simp) (by simp)

theorem opens_chars (v : Value) (rest : List Char) : Opens (v.chars ++ rest) v rest := by
  cases v with
  | null => exact .null rfl rfl
  | bool b =>
    cases b with
    | true => exact .other rfl (by decide) (by decide) (by simp) (by simp)
    | false => exact .other rfl (by decide) (by decide) (by simp) (by simp)
  | number n => exact opens_number n rest
  | text text =>
    obtain ⟨inside, hinside, hread⟩ := readText_textChars text rest
    rw [Value.chars, hinside]
    exact .text (skipSpace_cons (by decide) inside) hread
  | list items => exact .other rfl (by decide) (by decide) (by simp) (by simp)
  | object members => exact .other rfl (by decide) (by decide) (by simp) (by simp)

/-- A printed value is presented to fields none of which has to read the whole of it. -/
theorem presents_chars (htyped : Typed all) {v : Value} (hfuel : 2 * v.chars.length ≤ fuel)
    (hrest : NumberEnds rest) : Presents fuel room all (v.chars ++ rest) v rest := by
  refine ⟨opens_chars v rest, skipValue_chars v fuel rest hfuel hrest, ?_⟩
  rintro ⟨f, hf, hany⟩
  exact absurd hany (htyped f hf)

/-! ## Items and members -/

theorem presentsItems_tail (htyped : Typed all) (items : List Value)
    (hfuel : 2 * (Value.itemTail items).length ≤ fuel) :
    PresentsItems fuel room all false (Value.itemTail items ++ ']' :: rest) items rest := by
  induction items with
  | nil => exact .close rfl
  | cons v items ih =>
    rw [Value.itemTail] at hfuel ⊢
    simp only [List.length_cons, List.length_append] at hfuel
    rw [List.cons_append, List.append_assoc]
    exact .entry (nextItem_chars v _).2
      (presents_chars htyped (by omega) (numberEnds_itemTail items rest)) (ih (by omega))

theorem presentsItems_chars (htyped : Typed all) (items : List Value)
    (hfuel : 2 * (Value.itemChars items).length ≤ fuel) :
    PresentsItems fuel room all true (Value.itemChars items ++ ']' :: rest) items rest := by
  cases items with
  | nil => exact .close rfl
  | cons v items =>
    rw [Value.itemChars_cons] at hfuel ⊢
    rw [List.length_append] at hfuel
    rw [List.append_assoc]
    exact .entry (nextItem_chars v _).1
      (presents_chars htyped (by omega) (numberEnds_itemTail items rest))
      (presentsItems_tail htyped items (by omega))

theorem presentsMembers_tail (htyped : Typed all) (members : List (String × Value))
    (hfuel : 2 * (Value.memberTail members).length + 1 ≤ fuel) :
    PresentsMembers room all fuel false (Value.memberTail members ++ '\x7d' :: rest) members
      rest := by
  induction members generalizing fuel with
  | nil =>
    obtain ⟨fuel, rfl⟩ : ∃ n, fuel = n + 1 := ⟨fuel - 1, by omega⟩
    exact .close rfl
  | cons member members ih =>
    obtain ⟨key, v⟩ := member
    obtain ⟨fuel, rfl⟩ : ∃ n, fuel = n + 1 := ⟨fuel - 1, by omega⟩
    obtain ⟨inside, hinside, hkey⟩ := Value.memberTail_inside key v members rest
    rw [Value.memberTail] at hfuel
    simp only [List.length_cons, List.length_append] at hfuel
    rw [hinside]
    exact .entry (nextMember_comma inside) hkey (readColon_cons _)
      (presents_chars htyped (by omega) (numberEnds_memberTail members rest)) (ih (by omega))

theorem presentsMembers_chars (htyped : Typed all) (members : List (String × Value))
    (hfuel : 2 * (Value.memberChars members).length + 1 ≤ fuel) :
    PresentsMembers room all fuel true (Value.memberChars members ++ '\x7d' :: rest) members
      rest := by
  obtain ⟨fuel, rfl⟩ : ∃ n, fuel = n + 1 := ⟨fuel - 1, by omega⟩
  cases members with
  | nil => exact .close rfl
  | cons member members =>
    obtain ⟨key, v⟩ := member
    obtain ⟨inside, hinside, hkey⟩ := Value.memberChars_inside key v members rest
    rw [Value.memberChars_cons] at hfuel
    simp only [List.length_cons, List.length_append] at hfuel
    rw [hinside]
    exact .entry (nextMember_first inside) hkey (readColon_cons _)
      (presents_chars htyped (by omega) (numberEnds_memberTail members rest))
      (presentsMembers_tail htyped members (by omega))

end

/-! ## Whole records -/

namespace Schema

variable {schema : Schema}

/-- What is neither a list nor an object is no record on either path. -/
theorem read_scalar_iff {fuel : Nat} {s r r' : List Char} {v : Value} {row : Row schema.fields}
    {c : Char} {rest : List Char} (hs : skipSpace s = c :: rest) (hlist : c ≠ '[')
    (hobject : c ≠ '\x7b') (hv : schema.ofValue v = v.mismatch (.record schema.title)) :
    schema.read fuel s = .ok (row, r') ↔ schema.ofValue v = .ok row ∧ r' = r := by
  constructor
  · intro hread
    have hother : readOther (.record schema.title) (c :: rest) = .ok (row, r') := by
      simpa [read, hs, hlist, hobject] using hread
    exact (not_ok_readOther hother).elim
  · rintro ⟨hrow, -⟩
    cases hv.symm.trans hrow

theorem read_number_iff (n : Number) {fuel : Nat} {row : Row schema.fields} {r : List Char} :
    schema.read fuel n.chars = .ok (row, r) ↔ schema.ofValue (.number n) = .ok row ∧ r = [] := by
  obtain ⟨c, cs, hs, hc⟩ := skipSpace_number n []
  rw [List.append_nil] at hs
  exact read_scalar_iff hs (ne_of_digit hc (by decide)) (ne_of_digit hc (by decide)) rfl

theorem read_chars_iff (htyped : Typed schema.fields) (v : Value) {fuel : Nat}
    (hfuel : 2 * v.chars.length + 1 ≤ fuel) {row : Row schema.fields} {r : List Char} :
    schema.read fuel v.chars = .ok (row, r) ↔ schema.ofValue v = .ok row ∧ r = [] := by
  cases v with
  | null => exact read_scalar_iff rfl (by decide) (by decide) rfl
  | bool b =>
    cases b with
    | true => exact read_scalar_iff rfl (by decide) (by decide) rfl
    | false => exact read_scalar_iff rfl (by decide) (by decide) rfl
  | number n => exact read_number_iff n
  | text text => exact read_scalar_iff rfl (by decide) (by decide) rfl
  | list items =>
    have hlength : (Value.list items).chars.length = (Value.itemChars items).length + 2 := by
      simp [Value.chars]
    exact read_list_iff rfl (presentsItems_chars htyped items (by omega))
  | object members =>
    have hlength : (Value.object members).chars.length =
        (Value.memberChars members).length + 2 := by simp [Value.chars]
    exact read_object_iff rfl (presentsMembers_chars htyped members (by omega))

/-- The two paths to a record agree on every value. -/
theorem parse_print_iff (htyped : Typed schema.fields) (v : Value) (row : Row schema.fields) :
    schema.parse v.print = .ok row ↔ schema.ofValue v = .ok row := by
  have hread (r : List Char) : schema.read (2 * v.chars.length + 1) v.chars = .ok (row, r) ↔
      schema.ofValue v = .ok row ∧ r = [] := read_chars_iff htyped v (Nat.le_refl _)
  rw [parse_iff, Value.print, String.toList_ofList]
  constructor
  · rintro ⟨r, hr, -⟩
    exact ((hread r).mp hr).1
  · intro hvalue
    exact ⟨[], (hread []).mpr ⟨hvalue, rfl⟩, rfl⟩

end Schema

end GameRelay.Json
