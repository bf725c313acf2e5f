import GameRelay.Proofs.Json.Accepted.Value
import GameRelay.Proofs.Json.Presented

/-!
# Reading records from JSON texts

A value that can be read is presented to the fields of a record. So a JSON text that is
an object is a record exactly when its fields are in order.
-/

set_option autoImplicit false

namespace GameRelay.Json

section
variable {fuel room : Nat} {s r : List Char} {v : Value}

theorem opens_of_readScalar {c : Char} {rest : List Char} (hs : skipSpace s = c :: rest)
    (h : readScalar (c :: rest) = .ok (v, r)) : Opens s v r := by
  generalize hscalar : c :: rest = t at h
  fun_cases readScalar t with
  | case1 => cases hscalar
  | case2 more =>
    obtain ⟨left, hletters, hv⟩ := ok_of_map h
    obtain ⟨rfl, rfl⟩ := Prod.mk.inj hv
    exact .null (hs.trans hscalar) hletters
  | case3 more =>
    obtain ⟨left, -, hv⟩ := ok_of_map h
    obtain ⟨rfl, -⟩ := Prod.mk.inj hv
    exact .other (hs.trans hscalar) (by decide) (by decide) (by simp) (by simp)
  | case4 more =>
    obtain ⟨left, -, hv⟩ := ok_of_map h
    obtain ⟨rfl, -⟩ := Prod.mk.inj hv
    exact .other (hs.trans hscalar) (by decide) (by decide) (by simp) (by simp)
  | case5 more =>
    obtain ⟨⟨text, left⟩, htext, hv⟩ := ok_of_map h
    obtain ⟨rfl, rfl⟩ := Prod.mk.inj hv
    exact .text (hs.trans hscalar) htext
  | case6 d more hn ht hf hquote hd =>
    rw [readScalar_digit hd] at h
    obtain ⟨⟨n, left⟩, -, hv⟩ := ok_of_map h
    obtain ⟨rfl, -⟩ := Prod.mk.inj hv
    exact .other (hs.trans hscalar) hquote hn (by simp) (by simp)
  | case7 d more hn ht hf hquote hd => simp [readScalar, hd] at h

theorem opens_of_readValue (h : readValue fuel room s = .ok (v, r)) : Opens s v r := by
  obtain ⟨fuel, -, ⟨rest, items, hs, -, -, rfl⟩ | ⟨rest, members, hs, -, -, rfl⟩ |
    ⟨c, rest, hs, -, -, hscalar⟩⟩ := readValue_cases h
  · exact .other hs (by decide) (by decide) (by simp) (by simp)
  · exact .other hs (by decide) (by decide) (by simp [Value.ofMembers]) (by simp [Value.ofMembers])
  · exact opens_of_readScalar hs hscalar

theorem presents_of_readValue (h : readValue fuel room s = .ok (v, r)) (all : List Field) :
    Presents fuel room all s v r :=
  ⟨opens_of_readValue h, skipValue_of_readValue h, fun _ => h⟩

theorem presentsMembers_of_readMembers {first : Bool} {ms : List (String × Value)}
    (h : readMembers fuel room first s = .ok (ms, r)) (all : List Field) :
    PresentsMembers room all fuel first s ms r := by
  induction ms generalizing fuel first s with
  | nil =>
    obtain ⟨fuel, rfl, ⟨hturn, -⟩ | ⟨_, _, _, _, _, _, _, -, -, -, -, -, hms⟩⟩ :=
      readMembers_cases h
    · exact .close hturn
    · cases hms
  | cons member ms ih =>
    obtain ⟨fuel, rfl, ⟨-, hms⟩ |
      ⟨inside, key, colon, rest, v, left, more, hturn, hkey, hcolon, hvalue, hmore, hms⟩⟩ :=
      readMembers_cases h
    · cases hms
    · obtain ⟨rfl, rfl⟩ := List.cons.inj hms
      exact .entry hturn hkey hcolon (presents_of_readValue hvalue all) (ih hmore)

end

/-! ## Whole texts -/

theorem readMembers_of_members {inside : List Char} {ms : List (String × Value)}
    (h : Members inside ms) {fuel : Nat} (hfuel : 2 * inside.length + 1 ≤ fuel)
    (after : List Char) :
    readMembers fuel (depthLimit - 1) true (inside ++ '\x7d' :: after) = .ok (ms, after) := by
  cases h with
  | empty hblank =>
    obtain ⟨fuel, rfl⟩ : ∃ n, fuel = n + 1 := ⟨fuel - 1, by omega⟩
    exact readMembers_close hblank true after
  | listed hmembers => exact (readFrom_of_denotes hmembers fuel after hfuel).1

/-- Which JSON texts are records, and of which row. -/
theorem parse_object_iff {schema : Schema} (hnames : (schema.fields.map Field.name).Nodup)
    {text : String} {ms : List (String × Value)} (h : ObjectText text ms)
    (row : Row schema.fields) :
    schema.parse text = .ok row ↔ Row.Holds ms schema.fields row := by
  obtain ⟨before, inside, after, htext, hbefore, hmembers, hafter⟩ := h
  have hfuel : 2 * inside.length + 1 ≤ 2 * text.toList.length + 1 := by
    rw [htext]
    simp only [List.length_append, List.length_cons]
    omega
  have hread := readMembers_of_members hmembers hfuel after
  have hstart : skipSpace text.toList = '\x7b' :: (inside ++ '\x7d' :: after) := by
    rw [htext, skipSpace_blank hbefore, skipSpace_cons (by decide)]
  have hpresents := presentsMembers_of_readMembers hread schema.fields
  rw [← ofValue_object_iff hnames, Schema.parse_iff]
  constructor
  · rintro ⟨rest, hrest, -⟩
    exact ((Schema.read_object_iff hstart hpresents).mp hrest).1
  · intro hvalue
    exact ⟨after, (Schema.read_object_iff hstart hpresents).mpr ⟨hvalue, rfl⟩,
      skipSpace_of_blank hafter⟩

end GameRelay.Json
