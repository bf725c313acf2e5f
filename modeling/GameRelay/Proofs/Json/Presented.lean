import GameRelay.Proofs.Json.Extension.Record
import GameRelay.Proofs.Json.Fields
import GameRelay.Proofs.Json.Skipped

/-!
# Records read from a text and from a value

The fields of a record see little of a value: whether it is a text, or null, and where
it ends. A value that others skip need not be readable at all. Wherever a text presents
its items or its members in this sense, a record comes out of it exactly when it comes
out of the values.
-/

set_option autoImplicit false

namespace GameRelay.Json

section
variable {fuel room : Nat} {s r r' : List Char} {v : Value}

/-! ## One value -/

/-- What a text begins with, as a field can tell: a text, null, or neither; `r` is what is
left behind it. -/
inductive Opens (s : List Char) : Value → List Char → Prop where
  | text {rest r : List Char} {text : String} : skipSpace s = '"' :: rest →
      readText [] rest = .ok (text, r) → Opens s (.text text) r
  | null {rest r : List Char} : skipSpace s = 'n' :: rest →
      readLetters ['u', 'l', 'l'] rest = .ok r → Opens s .null r
  | other {c : Char} {rest r : List Char} {v : Value} : skipSpace s = c :: rest → c ≠ '"' →
      c ≠ 'n' → v ≠ .null → (∀ text, v ≠ .text text) → Opens s v r

theorem readString_iff (h : Opens s v r) {text : String} :
    readString s = .ok (text, r') ↔ v = .text text ∧ r' = r := by
  cases h with
  | @text rest _ known hs hread =>
    have hstring : readString s = readText [] rest := by
      rw [readString, hs]
      rfl
    rw [hstring, hread]
    simp [eq_comm]
  | null hs =>
    constructor
    · intro hread
      obtain ⟨more, hmore, -⟩ := skipSpace_of_readString hread
      cases hs.symm.trans hmore
    · rintro ⟨hv, -⟩
      cases hv
  | other hs hquote _ _ htext =>
    constructor
    · intro hread
      obtain ⟨more, hmore, -⟩ := skipSpace_of_readString hread
      exact absurd (List.cons.inj (hs.symm.trans hmore)).1 hquote
    · rintro ⟨hv, -⟩
      exact absurd hv (htext text)

theorem readStringOrNull_of_ne {c : Char} {rest : List Char} (hs : skipSpace s = c :: rest)
    (hc : c ≠ 'n') :
    readStringOrNull s = (readString s).map fun read => (some read.1, read.2) := by
  have hagain : readString (skipSpace s) = readString s := by
    rw [readString, readString, skipSpace_twice]
  rw [← hagain, hs, readStringOrNull, hs]
  split
  · simp_all
  · rfl

theorem readStringOrNull_iff (h : Opens s v r) {text : Option String} :
    readStringOrNull s = .ok (text, r') ↔ v = Kind.textOrNull.value text ∧ r' = r := by
  have hother {c : Char} {rest : List Char} (hs : skipSpace s = c :: rest) (hc : c ≠ 'n')
      (hnull : v ≠ .null) :
      readStringOrNull s = .ok (text, r') ↔ v = Kind.textOrNull.value text ∧ r' = r := by
    rw [readStringOrNull_of_ne hs hc]
    constructor
    · intro hmap
      obtain ⟨⟨string, left⟩, hstring, hread⟩ := ok_of_map hmap
      obtain ⟨rfl, rfl⟩ := Prod.mk.inj hread
      exact (readString_iff h).mp hstring
    · rintro ⟨hv, rfl⟩
      cases text with
      | none => exact absurd hv hnull
      | some string =>
        rw [(readString_iff h).mpr ⟨hv, rfl⟩]
        rfl
  cases h with
  | text hs => exact hother hs (by decide) (by simp)
  | null hs hletters =>
    have hread : readStringOrNull s = .ok (none, r) := by
      rw [readStringOrNull, hs]
      simp only [hletters]
      rfl
    rw [hread]
    cases text <;> simp [Kind.value, eq_comm]
  | other hs _ hc hnull _ => exact hother hs hc hnull

/-- The text presents a value to the fields of a record: it can be skipped, and where a
field takes any value whatsoever, it can be read. -/
structure Presents (fuel room : Nat) (all : List Field) (s : List Char) (v : Value)
    (r : List Char) : Prop where
  opens : Opens s v r
  skipped : skipValue fuel s = .ok r
  whole : (∃ f ∈ all, f.kind = .any) → readValue fuel room s = .ok (v, r)

section
variable {all fs : List Field} {f : Field}

/-- A value is read for a field exactly when it is of the field's kind. -/
theorem readKind_iff (h : Presents fuel room all s v r) (hf : f ∈ all) {c : f.kind.Carrier} :
    readKind fuel room f.kind s = .ok (c, r') ↔ v.toKind f.kind = .ok c ∧ r' = r := by
  obtain ⟨name, kind, fallback⟩ := f
  rw [toKind_eq_ok_iff]
  cases kind with
  | any =>
    have hwhole := h.whole ⟨_, hf, rfl⟩
    constructor
    · intro hread
      obtain ⟨rfl, rfl⟩ := Prod.mk.inj (Except.ok.inj (hwhole.symm.trans hread))
      exact ⟨rfl, rfl⟩
    · rintro ⟨rfl, rfl⟩
      exact hwhole
  | text => exact readString_iff h.opens
  | textOrNull => exact readStringOrNull_iff h.opens

/-! ## Members -/

theorem fillSlot_iff {key : String} {slots filled : Slots fs} {colon : List Char}
    (hcolon : readColon colon = .ok s) (h : Presents fuel room all s v r) (hfs : fs ⊆ all) :
    fillSlot fuel room key fs slots colon = .ok (filled, r') ↔
      putSlot key v fs slots = .ok filled ∧ r' = r := by
  induction fs generalizing r' with
  | nil =>
    simp only [fillSlot, hcolon, h.skipped, bind, Except.bind]
    constructor
    · intro hread
      exact ⟨rfl, (Prod.mk.inj (Except.ok.inj hread)).2.symm⟩
    · rintro ⟨-, rfl⟩
      rfl
  | cons f fs ih =>
    obtain ⟨slot, slots⟩ := slots
    obtain ⟨hf, hfs⟩ := List.cons_subset.mp hfs
    by_cases hkey : f.name = key
    · subst hkey
      refine Iff.trans ?_ (and_congr_left' putSlot_self_iff.symm)
      simp only [fillSlot, if_true]
      cases slot with
      | some c => simp [wrong]
      | none =>
        simp only [hcolon, bind, Except.bind]
        constructor
        · intro hread
          obtain ⟨⟨c, left⟩, hkind, hfilled⟩ := ok_of_bind hread
          obtain ⟨rfl, rfl⟩ := Prod.mk.inj (Except.ok.inj hfilled)
          obtain ⟨hc, rfl⟩ := (readKind_iff h hf).mp hkind
          exact ⟨⟨c, trivial, hc, rfl⟩, rfl⟩
        · rintro ⟨⟨c, -, hc, rfl⟩, rfl⟩
          rw [(readKind_iff h hf).mpr ⟨hc, rfl⟩]
          rfl
    · refine Iff.trans ?_ (and_congr_left' (putSlot_other_iff hkey).symm)
      simp only [fillSlot, if_neg hkey]
      constructor
      · intro hread
        obtain ⟨⟨next, left⟩, hnext, hfilled⟩ := ok_of_bind hread
        obtain ⟨rfl, rfl⟩ := Prod.mk.inj (Except.ok.inj hfilled)
        obtain ⟨hput, rfl⟩ := (ih hfs).mp hnext
        exact ⟨⟨next, hput, rfl⟩, rfl⟩
      · rintro ⟨⟨next, hput, rfl⟩, rfl⟩
        simp only [(ih hfs).mpr ⟨hput, rfl⟩, bind, Except.bind]
        rfl

inductive PresentsMembers (room : Nat) (all : List Field) :
    Nat → Bool → List Char → List (String × Value) → List Char → Prop where
  | close {fuel : Nat} {first : Bool} {s r : List Char} : nextMember first s = .ok (.close r) →
      PresentsMembers room all (fuel + 1) first s [] r
  | entry {fuel : Nat} {first : Bool} {s inside colon start left r : List Char} {key : String}
      {v : Value} {ms : List (String × Value)} : nextMember first s = .ok (.entry inside) →
      readText [] inside = .ok (key, colon) → readColon colon = .ok start →
      Presents fuel room all start v left → PresentsMembers room all fuel false left ms r →
      PresentsMembers room all (fuel + 1) first s ((key, v) :: ms) r

/-- The two ways to a record meet: the members fill the slots as their values do. -/
theorem readSlots_iff {first : Bool} {slots filled : Slots fs} {ms : List (String × Value)}
    (h : PresentsMembers room fs fuel first s ms r) :
    readSlots fs fuel room first slots s = .ok (filled, r') ↔
      putSlots fs ms slots = .ok filled ∧ r' = r := by
  induction h generalizing slots with
  | close hturn =>
    simp only [readSlots, hturn, bind, Except.bind, putSlots]
    constructor
    · intro hread
      obtain ⟨rfl, rfl⟩ := Prod.mk.inj (Except.ok.inj hread)
      exact ⟨rfl, rfl⟩
    · rintro ⟨hslots, rfl⟩
      obtain rfl := Except.ok.inj hslots
      rfl
  | entry hturn hkey hcolon hvalue _ ih =>
    rw [putSlots_cons_iff]
    simp only [readSlots, hturn, hkey, bind, Except.bind]
    have hall : fs ⊆ fs := List.Subset.refl fs
    constructor
    · intro hread
      obtain ⟨⟨next, left'⟩, hnext, hrest⟩ := ok_of_bind hread
      obtain ⟨hput, rfl⟩ := (fillSlot_iff hcolon hvalue hall).mp hnext
      obtain ⟨hslots, rfl⟩ := ih.mp hrest
      exact ⟨⟨next, hput, hslots⟩, rfl⟩
    · rintro ⟨⟨next, hput, hslots⟩, rfl⟩
      rw [(fillSlot_iff hcolon hvalue hall).mpr ⟨hput, rfl⟩]
      exact ih.mpr ⟨hslots, rfl⟩

/-! ## Items -/

inductive PresentsItems (fuel room : Nat) (all : List Field) :
    Bool → List Char → List Value → List Char → Prop where
  | close {first : Bool} {s r : List Char} : nextItem first s = .ok (.close r) →
      PresentsItems fuel room all first s [] r
  | entry {first : Bool} {s start left r : List Char} {v : Value} {vs : List Value} :
      nextItem first s = .ok (.entry start) → Presents fuel room all start v left →
      PresentsItems fuel room all false left vs r → PresentsItems fuel room all first s (v :: vs) r

/-- A list that has to end does so where no more items come. -/
theorem closeList_iff {first : Bool} :
    closeList s = .ok r ↔ nextItem first s = .ok (.close r) := by
  constructor
  · intro h
    rw [nextItem, skipSpace_of_closeList h]
    rfl
  · intro h
    have hs : skipSpace s = ']' :: r := by
      unfold nextItem at h
      split at h
      · cases h
      · obtain rfl : _ = r := by simpa using h
        assumption
      · cases first with
        | true => simp at h
        | false =>
          simp only [Bool.false_eq_true, if_false] at h
          split at h
          · split at h <;> cases h
          · cases h
    rw [closeList, hs]
    rfl

theorem fallbacks_iff {title : String} {count length index : Nat} {row : Row fs} :
    fallbacks title count index r fs = .ok row ↔
      rowOfItems title count length index fs [] = .ok row := by
  induction fs generalizing index with
  | nil =>
    rw [fallbacks, rowOfItems]
    exact ⟨fun _ => rfl, fun _ => rfl⟩
  | cons f fs ih =>
    rw [fallbacks, rowOfItems]
    cases f.fallback with
    | none => simp [wrong]
    | some c =>
      constructor
      · intro h
        obtain ⟨more, hmore, rfl⟩ := ok_of_map h
        rw [ih.mp hmore]
        rfl
      · intro h
        obtain ⟨more, hmore, rfl⟩ := ok_of_map h
        rw [ih.mpr hmore]
        rfl

theorem rowOfItems_cons_iff {title : String} {count length index : Nat} {vs : List Value}
    {c : f.kind.Carrier} {row : Row fs} :
    rowOfItems title count length index (f :: fs) (v :: vs) = .ok (c, row) ↔
      v.toKind f.kind = .ok c ∧ rowOfItems title count length (index + 1) fs vs = .ok row := by
  rw [rowOfItems]
  constructor
  · intro h
    obtain ⟨c', hc, h⟩ := ok_of_bind h
    obtain ⟨row', hrow, h⟩ := ok_of_bind h
    obtain ⟨rfl, rfl⟩ := Prod.mk.inj (Except.ok.inj h)
    exact ⟨hc, hrow⟩
  · rintro ⟨hc, hrow⟩
    simp only [hc, hrow, bind, Except.bind]
    rfl

/-- The two ways meet for a list as well. -/
theorem readRow_iff {title : String} {count length index : Nat} {vs : List Value} {row : Row fs}
    (h : PresentsItems fuel room all (index == 0) s vs r) (hfs : fs ⊆ all) :
    readRow title count fuel room index fs s = .ok (row, r') ↔
      rowOfItems title count length index fs vs = .ok row ∧ r' = r := by
  induction fs generalizing index s vs r' with
  | nil =>
    rw [readRow]
    cases h with
    | close hturn =>
      rw [closeList_iff.mpr hturn, rowOfItems]
      constructor
      · intro hread
        exact ⟨rfl, (Prod.mk.inj (Except.ok.inj hread)).2.symm⟩
      · rintro ⟨-, rfl⟩
        rfl
    | entry hturn =>
      -- An item is left over, and both ways refuse the list.
      cases hclose : closeList s with
      | error fault => simp [Except.map, rowOfItems]
      | ok rest => cases hturn.symm.trans (closeList_iff.mp hclose)
  | cons f fs ih =>
    obtain ⟨hf, hfs⟩ := List.cons_subset.mp hfs
    obtain ⟨c, row⟩ := row
    rw [readRow]
    cases h with
    | close hturn =>
      simp only [hturn, bind, Except.bind]
      constructor
      · intro hread
        obtain ⟨row', hrow, hread⟩ := ok_of_bind hread
        obtain ⟨rfl, rfl⟩ := Prod.mk.inj (Except.ok.inj hread)
        exact ⟨fallbacks_iff.mp hrow, rfl⟩
      · rintro ⟨hrow, rfl⟩
        rw [fallbacks_iff.mpr hrow]
        rfl
    | entry hturn hvalue hmore =>
      -- No later item is the first one.
      have hlater : PresentsItems fuel room all (index + 1 == 0) _ _ r := hmore
      rw [rowOfItems_cons_iff]
      simp only [hturn, bind, Except.bind]
      constructor
      · intro hread
        obtain ⟨⟨c', left⟩, hkind, hread⟩ := ok_of_bind hread
        obtain ⟨⟨row', last⟩, hrest, hread⟩ := ok_of_bind hread
        obtain ⟨hrows, rfl⟩ := Prod.mk.inj (Except.ok.inj hread)
        obtain ⟨rfl, rfl⟩ := Prod.mk.inj hrows
        obtain ⟨hc, rfl⟩ := (readKind_iff hvalue hf).mp hkind
        obtain ⟨hitems, rfl⟩ := (ih hlater hfs).mp hrest
        exact ⟨⟨hc, hitems⟩, rfl⟩
      · rintro ⟨⟨hc, hitems⟩, rfl⟩
        simp only [(readKind_iff hvalue hf).mpr ⟨hc, rfl⟩, (ih hlater hfs).mpr ⟨hitems, rfl⟩]
        rfl

end

/-! ## Whole records -/

namespace Schema

variable {schema : Schema} {row : Row schema.fields} {inside : List Char}

theorem read_object_iff {ms : List (String × Value)} (hs : skipSpace s = '\x7b' :: inside)
    (h : PresentsMembers (depthLimit - 1) schema.fields fuel true inside ms r) :
    schema.read fuel s = .ok (row, r') ↔ schema.ofValue (.object ms) = .ok row ∧ r' = r := by
  simp only [read, hs, ofValue]
  constructor
  · intro hread
    obtain ⟨⟨filled, left⟩, hfilled, hread⟩ := ok_of_bind hread
    obtain ⟨hput, rfl⟩ := (readSlots_iff h).mp hfilled
    cases hclose : filled.close with
    | error what =>
      simp only [hclose] at hread
      cases hread
    | ok closed =>
      simp only [hclose] at hread
      obtain ⟨rfl, rfl⟩ := Prod.mk.inj (Except.ok.inj hread)
      exact ⟨bind_eq_ok_iff.mpr ⟨filled, hput, hclose⟩, rfl⟩
  · rintro ⟨hvalue, rfl⟩
    obtain ⟨filled, hput, hclose⟩ := ok_of_bind hvalue
    rw [(readSlots_iff h).mpr ⟨hput, rfl⟩]
    simp only [bind, Except.bind, hclose]
    rfl

theorem read_list_iff {vs : List Value} (hs : skipSpace s = '[' :: inside)
    (h : PresentsItems fuel (depthLimit - 1) schema.fields true inside vs r) :
    schema.read fuel s = .ok (row, r') ↔ schema.ofValue (.list vs) = .ok row ∧ r' = r := by
  simp only [read, hs, ofValue]
  exact readRow_iff h (List.Subset.refl schema.fields)

theorem parse_iff {text : String} :
    schema.parse text = .ok row ↔ ∃ rest,
      schema.read (2 * text.toList.length + 1) text.toList = .ok (row, rest) ∧
        skipSpace rest = [] := by
  constructor
  · intro h
    rw [← String.ofList_toList (s := text)] at h
    exact read_of_parse h
  · rintro ⟨rest, hread, hspace⟩
    have hend : readEnd rest = .ok () := by rw [readEnd, hspace]
    rw [parse, readWith, hread]
    simp only [bind, Except.bind, hend]
    rfl

end Schema

end

end GameRelay.Json
