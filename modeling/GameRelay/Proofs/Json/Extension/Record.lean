import GameRelay.Proofs.Json.Extension.Value

/-!
# Records of a text that goes on

A record closes itself, in a list and in an object alike. So no text is a record
and goes on to become another one.
-/

set_option autoImplicit false

namespace GameRelay.Json

theorem readOther_error {α : Type} (wanted : Wanted) (s : List Char) :
    ∃ fault : Fault, (readOther wanted s : Except Fault α) = .error fault := by
  unfold readOther
  split
  · exact ⟨_, rfl⟩
  · exact ⟨_, rfl⟩
  · cases readScalar s with
    | ok read => exact ⟨_, rfl⟩
    | error fault => exact ⟨fault, rfl⟩

theorem not_ok_readOther {α : Type} {wanted : Wanted} {s : List Char} {read : α × List Char}
    (h : readOther wanted s = .ok read) : False := by
  obtain ⟨fault, hfault⟩ := readOther_error (α := α × List Char) wanted s
  exact nomatch hfault.symm.trans h

section
variable {s r : List Char}

theorem skipSpace_of_readString {text : String} (h : readString s = .ok (text, r)) :
    ∃ rest, skipSpace s = '"' :: rest ∧ readText [] rest = .ok (text, r) := by
  unfold readString at h
  split at h
  · exact ⟨_, ‹_›, h⟩
  · exact (not_ok_readOther h).elim

theorem readString_extend {text : String} (h : readString s = .ok (text, r)) (t : List Char) :
    readString (s ++ t) = .ok (text, r ++ t) := by
  obtain ⟨rest, hs, htext⟩ := skipSpace_of_readString h
  rw [readString, skipSpace_extend hs]
  exact readText_extend htext t

theorem readStringOrNull_extend {text : Option String} (h : readStringOrNull s = .ok (text, r))
    (t : List Char) : readStringOrNull (s ++ t) = .ok (text, r ++ t) := by
  unfold readStringOrNull at h ⊢
  cases hs : skipSpace s with
  | nil =>
    rw [hs] at h
    obtain ⟨⟨string, left⟩, hstring, -⟩ := ok_of_map h
    obtain ⟨rest, hrest, -⟩ := skipSpace_of_readString hstring
    cases hrest
  | cons c rest =>
    rw [hs] at h
    rw [skipSpace_extend hs]
    by_cases hn : c = 'n'
    · subst hn
      obtain ⟨left, hletters, hv⟩ := ok_of_map h
      obtain ⟨rfl, rfl⟩ := Prod.mk.inj hv
      simp only [readLetters_extend hletters]
      rfl
    · have hstring : (readString (c :: rest)).map (fun read => (some read.1, read.2)) =
          .ok (text, r) := by simpa [hn] using h
      obtain ⟨⟨string, left⟩, hread, hv⟩ := ok_of_map hstring
      obtain ⟨rfl, rfl⟩ := Prod.mk.inj hv
      have hmore := readString_extend hread t
      rw [List.cons_append] at hmore
      simp [hn, hmore, Except.map]

section
variable {fuel fuel' room : Nat} (hfuel : fuel ≤ fuel')
include hfuel

theorem readKind_extend {k : Kind} {c : k.Carrier} (h : readKind fuel room k s = .ok (c, r))
    (hr : r ≠ []) (t : List Char) : readKind fuel' room k (s ++ t) = .ok (c, r ++ t) := by
  cases k with
  | any => exact readValue_extend hfuel h hr t
  | text => exact readString_extend h t
  | textOrNull => exact readStringOrNull_extend h t

theorem fillSlot_extend {key : String} {fs : List Field} {slots filled : Slots fs}
    (h : fillSlot fuel room key fs slots s = .ok (filled, r)) (hr : r ≠ []) (t : List Char) :
    fillSlot fuel' room key fs slots (s ++ t) = .ok (filled, r ++ t) := by
  induction fs generalizing r with
  | nil =>
    obtain ⟨s₁, hcolon, h⟩ := ok_of_bind h
    obtain ⟨s₂, hvalue, h⟩ := ok_of_bind h
    obtain ⟨rfl, rfl⟩ := Prod.mk.inj (Except.ok.inj h)
    simp only [fillSlot, bind, Except.bind, readColon_extend hcolon,
      skipValue_extend hfuel hvalue hr]
    rfl
  | cons f fs ih =>
    obtain ⟨slot, slots⟩ := slots
    by_cases hkey : f.name = key
    · simp only [fillSlot, if_pos hkey] at h ⊢
      cases slot with
      | some c => cases h
      | none =>
        obtain ⟨s₁, hcolon, h⟩ := ok_of_bind h
        obtain ⟨⟨c, s₂⟩, hkind, h⟩ := ok_of_bind h
        obtain ⟨rfl, rfl⟩ := Prod.mk.inj (Except.ok.inj h)
        simp only [bind, Except.bind, readColon_extend hcolon, readKind_extend hfuel hkind hr]
        rfl
    · simp only [fillSlot, if_neg hkey] at h ⊢
      obtain ⟨⟨more, s₁⟩, hmore, h⟩ := ok_of_bind h
      obtain ⟨rfl, rfl⟩ := Prod.mk.inj (Except.ok.inj h)
      simp only [bind, Except.bind, ih hmore hr]
      rfl

theorem readSlots_extend {fields : List Field} {first : Bool} {slots filled : Slots fields}
    (h : readSlots fields fuel room first slots s = .ok (filled, r)) (t : List Char) :
    s ≠ [] ∧ readSlots fields fuel' room first slots (s ++ t) = .ok (filled, r ++ t) := by
  induction fuel generalizing fuel' first slots s with
  | zero => simp [readSlots] at h
  | succ fuel ih =>
    obtain ⟨fuel', rfl⟩ : ∃ n, fuel' = n + 1 := ⟨fuel' - 1, by omega⟩
    rw [readSlots] at h ⊢
    obtain ⟨turn, hturn, h⟩ := ok_of_bind h
    have hs : s ≠ [] := by
      rintro rfl
      cases hturn
    refine ⟨hs, ?_⟩
    rw [nextMember_extend hturn]
    cases turn with
    | close rest =>
      obtain ⟨rfl, rfl⟩ := Prod.mk.inj (Except.ok.inj h)
      rfl
    | entry rest =>
      obtain ⟨⟨key, s₁⟩, hkey, h⟩ := ok_of_bind h
      obtain ⟨⟨next, s₂⟩, hfill, h⟩ := ok_of_bind h
      obtain ⟨hs₂, hmore⟩ := ih (Nat.le_of_succ_le_succ hfuel) h
      simp only [bind, Except.bind, Turn.extend, readText_extend hkey,
        fillSlot_extend (Nat.le_of_succ_le_succ hfuel) hfill hs₂]
      exact hmore

end

theorem skipSpace_of_closeList (h : closeList s = .ok r) : skipSpace s = ']' :: r := by
  unfold closeList at h
  split at h
  · cases h
  · obtain rfl := Except.ok.inj h
    assumption
  · split at h <;> cases h
  · cases h

theorem closeList_extend (h : closeList s = .ok r) (t : List Char) :
    s ≠ [] ∧ closeList (s ++ t) = .ok (r ++ t) := by
  have hs := skipSpace_of_closeList h
  constructor
  · rintro rfl
    cases hs
  · rw [closeList, skipSpace_extend hs]
    rfl

theorem fallbacks_rest {title : String} {all index : Nat} {fs : List Field} {row : Row fs}
    (h : fallbacks title all index r fs = .ok row) (t : List Char) :
    fallbacks title all index (r ++ t) fs = .ok row := by
  induction fs generalizing index with
  | nil => exact h
  | cons f fs ih =>
    rw [fallbacks] at h ⊢
    cases hfallback : f.fallback with
    | none =>
      rw [hfallback] at h
      cases h
    | some c =>
      simp only [hfallback] at h ⊢
      obtain ⟨more, hmore, rfl⟩ := ok_of_map h
      rw [ih hmore]
      rfl

theorem readRow_extend {title : String} {all fuel fuel' room index : Nat} (hfuel : fuel ≤ fuel')
    {fs : List Field} {row : Row fs}
    (h : readRow title all fuel room index fs s = .ok (row, r)) (t : List Char) :
    s ≠ [] ∧ readRow title all fuel' room index fs (s ++ t) = .ok (row, r ++ t) := by
  induction fs generalizing index s with
  | nil =>
    obtain ⟨rest, hclose, hv⟩ := ok_of_map h
    obtain ⟨rfl, rfl⟩ := Prod.mk.inj hv
    obtain ⟨hs, hmore⟩ := closeList_extend hclose t
    refine ⟨hs, ?_⟩
    rw [readRow, hmore]
    rfl
  | cons f fs ih =>
    rw [readRow] at h ⊢
    obtain ⟨turn, hturn, h⟩ := ok_of_bind h
    have hs : s ≠ [] := by
      rintro rfl
      cases hturn
    refine ⟨hs, ?_⟩
    rw [nextItem_extend hturn]
    cases turn with
    | close rest =>
      obtain ⟨row', hrow, h⟩ := ok_of_bind h
      obtain ⟨rfl, rfl⟩ := Prod.mk.inj (Except.ok.inj h)
      simp only [bind, Except.bind, Turn.extend, fallbacks_rest hrow]
      rfl
    | entry rest =>
      obtain ⟨⟨c, s₁⟩, hkind, h⟩ := ok_of_bind h
      obtain ⟨⟨row', s₂⟩, hrow, h⟩ := ok_of_bind h
      obtain ⟨rfl, rfl⟩ := Prod.mk.inj (Except.ok.inj h)
      obtain ⟨hs₁, hmore⟩ := ih hrow
      simp only [bind, Except.bind, Turn.extend, readKind_extend hfuel hkind hs₁, hmore]
      rfl

namespace Schema

theorem read_extend {schema : Schema} {fuel fuel' : Nat} (hfuel : fuel ≤ fuel')
    {row : Row schema.fields} (h : schema.read fuel s = .ok (row, r)) (t : List Char) :
    schema.read fuel' (s ++ t) = .ok (row, r ++ t) := by
  unfold read at h ⊢
  cases hs : skipSpace s with
  | nil =>
    rw [hs] at h
    exact (not_ok_readOther h).elim
  | cons c rest =>
    rw [hs] at h
    rw [skipSpace_extend hs]
    by_cases hlist : c = '['
    · subst hlist
      exact (readRow_extend hfuel h t).2
    · by_cases hobject : c = '\x7b'
      · subst hobject
        obtain ⟨⟨slots, left⟩, hslots, h⟩ := ok_of_bind h
        have hmore := (readSlots_extend hfuel hslots t).2
        simp only [bind, Except.bind, hmore]
        cases hclose : slots.close with
        | ok row' =>
          simp only [hclose] at h ⊢
          obtain ⟨rfl, rfl⟩ := Prod.mk.inj (Except.ok.inj h)
          rfl
        | error what =>
          simp only [hclose] at h
          cases h
      · have hother : readOther (.record schema.title) (c :: rest) = .ok (row, r) := by
          simpa [hlist, hobject] using h
        exact (not_ok_readOther hother).elim

/-- What a record was read from, and the spaces behind it. -/
theorem read_of_parse {schema : Schema} {row : Row schema.fields}
    (h : schema.parse (String.ofList s) = .ok row) :
    ∃ rest, schema.read (2 * s.length + 1) s = .ok (row, rest) ∧ skipSpace rest = [] := by
  rw [parse, readWith, String.toList_ofList] at h
  obtain ⟨⟨row', rest⟩, hread, h⟩ := ok_of_bind (ok_of_mapError h)
  obtain ⟨_, hend, h⟩ := ok_of_bind h
  obtain rfl := Except.ok.inj h
  refine ⟨rest, hread, ?_⟩
  cases hs : skipSpace rest with
  | nil => rfl
  | cons c more =>
    simp [readEnd, hs] at hend

/-- A text that is a record and goes on is no other record. -/
theorem parse_append {schema : Schema} {s t : List Char} {row row' : Row schema.fields}
    (h : schema.parse (String.ofList s) = .ok row)
    (h' : schema.parse (String.ofList (s ++ t)) = .ok row') : row = row' := by
  obtain ⟨rest, hread, -⟩ := read_of_parse h
  obtain ⟨rest', hread', -⟩ := read_of_parse h'
  have hfuel : 2 * s.length + 1 ≤ 2 * (s ++ t).length + 1 := by
    rw [List.length_append]
    omega
  have hmore := read_extend hfuel hread t
  rw [hmore] at hread'
  exact (Prod.mk.inj (Except.ok.inj hread')).1

theorem parse_of_isPrefix {schema : Schema} {first whole : String}
    {row row' : Row schema.fields} (h : first.toList <+: whole.toList)
    (hfirst : schema.parse first = .ok row) (hwhole : schema.parse whole = .ok row') :
    row = row' := by
  obtain ⟨more, hmore⟩ := h
  rw [← String.ofList_toList (s := first)] at hfirst
  rw [← String.ofList_toList (s := whole), ← hmore] at hwhole
  exact parse_append hfirst hwhole

end Schema

end

end GameRelay.Json
