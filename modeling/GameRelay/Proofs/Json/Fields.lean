import GameRelay.Proofs.Json.Record
import GameRelay.Proofs.Json.Extension.Scan

/-!
# The fields of an object

A record is read from the members of an object exactly when each of its fields is
either one member or absent with a fallback. Members of other names do not matter, and
neither does the order.
-/

set_option autoImplicit false

namespace GameRelay.Json

def valuesOf (key : String) (ms : List (String × Value)) : List Value :=
  (ms.filter fun member => member.1 == key).map Prod.snd

section
variable {key : String} {ms ms' : List (String × Value)}

theorem valuesOf_cons_self (key : String) (v : Value) (ms : List (String × Value)) :
    valuesOf key ((key, v) :: ms) = v :: valuesOf key ms := by
  simp [valuesOf]

theorem valuesOf_cons_of_ne {name : String} (h : name ≠ key) (v : Value)
    (ms : List (String × Value)) : valuesOf key ((name, v) :: ms) = valuesOf key ms := by
  simp [valuesOf, h]

/-- Only the members of that name count. -/
theorem valuesOf_filter {known : String → Bool} (h : known key = true)
    (ms : List (String × Value)) :
    valuesOf key (ms.filter fun member => known member.1) = valuesOf key ms := by
  rw [valuesOf, valuesOf, List.filter_filter]
  congr 1
  apply List.filter_congr
  intro member _
  by_cases hname : member.1 = key
  · simp [hname, h]
  · simp [hname]

theorem valuesOf_perm (h : ms.Perm ms') (key : String) :
    (valuesOf key ms).Perm (valuesOf key ms') :=
  (h.filter _).map _

end

def Once (key : String) (P : Value → Prop) (ms : List (String × Value)) : Prop :=
  ∃ v, valuesOf key ms = [v] ∧ P v

def AtMostOnce (key : String) (P : Value → Prop) (ms : List (String × Value)) : Prop :=
  (valuesOf key ms).length ≤ 1 ∧ ∀ v ∈ valuesOf key ms, P v

theorem atMostOnce_iff {key : String} {P : Value → Prop} {ms : List (String × Value)} :
    AtMostOnce key P ms ↔ valuesOf key ms = [] ∨ Once key P ms := by
  rw [AtMostOnce, Once]
  match valuesOf key ms with
  | [] => simp
  | [v] => simp
  | v :: w :: vs => simp

theorem toKind_eq_ok_iff {k : Kind} {v : Value} {c : k.Carrier} :
    v.toKind k = .ok c ↔ v = k.value c := by
  constructor
  · intro h
    cases k with
    | any => exact Except.ok.inj h
    | text =>
      cases v with
      | text s =>
        obtain rfl : s = c := Except.ok.inj h
        rfl
      | _ => cases h
    | textOrNull =>
      cases v with
      | null =>
        obtain rfl : none = c := Except.ok.inj h
        rfl
      | text s =>
        obtain rfl : some s = c := Except.ok.inj h
        rfl
      | _ => cases h
  · rintro rfl
    exact toKind_value k c

theorem bind_eq_ok_iff {ε α β : Type} {x : Except ε α} {f : α → Except ε β} {b : β} :
    x >>= f = .ok b ↔ ∃ a, x = .ok a ∧ f a = .ok b := by
  constructor
  · exact ok_of_bind
  · rintro ⟨a, rfl, h⟩
    exact h

/-! ## One field -/

/-- The slot of a field before and after the values of its members: none of them, or one
that fits into an empty slot. -/
def Field.Takes (f : Field) (vs : List Value) (slot slot' : Option f.kind.Carrier) : Prop :=
  vs = [] ∧ slot' = slot ∨ ∃ c, slot = none ∧ vs = [f.kind.value c] ∧ slot' = some c

def Field.Holds (f : Field) (ms : List (String × Value)) (c : f.kind.Carrier) : Prop :=
  valuesOf f.name ms = [f.kind.value c] ∨ valuesOf f.name ms = [] ∧ f.fallback = some c

def Row.Holds (ms : List (String × Value)) : (fs : List Field) → Row fs → Prop
  | [], _ => True
  | f :: fs, (c, row) => f.Holds ms c ∧ Row.Holds ms fs row

section
variable {f : Field} {fs : List Field}

theorem takes_nil_iff {slot slot' : Option f.kind.Carrier} :
    f.Takes [] slot slot' ↔ slot' = slot := by
  simp [Field.Takes]

theorem takes_cons_iff {v : Value} {vs : List Value} {slot slot' : Option f.kind.Carrier} :
    f.Takes (v :: vs) slot slot' ↔
      ∃ c, slot = none ∧ v.toKind f.kind = .ok c ∧ f.Takes vs (some c) slot' := by
  simp [Field.Takes, toKind_eq_ok_iff, and_assoc]

theorem putSlot_self_iff {v : Value} {slot : Option f.kind.Carrier} {slots : Slots fs}
    {filled : Slots (f :: fs)} :
    putSlot f.name v (f :: fs) (slot, slots) = .ok filled ↔
      ∃ c, slot = none ∧ v.toKind f.kind = .ok c ∧ filled = (some c, slots) := by
  simp only [putSlot, if_true]
  cases slot with
  | some c => simp
  | none =>
    constructor
    · intro h
      obtain ⟨c, hc, rfl⟩ := ok_of_map h
      exact ⟨c, rfl, hc, rfl⟩
    · rintro ⟨c, -, hc, rfl⟩
      simp only [hc]
      rfl

theorem putSlot_other_iff {key : String} (hkey : f.name ≠ key) {v : Value}
    {slot : Option f.kind.Carrier} {slots : Slots fs} {filled : Slots (f :: fs)} :
    putSlot key v (f :: fs) (slot, slots) = .ok filled ↔
      ∃ next, putSlot key v fs slots = .ok next ∧ filled = (slot, next) := by
  simp only [putSlot, if_neg hkey]
  constructor
  · intro h
    obtain ⟨next, hnext, rfl⟩ := ok_of_map h
    exact ⟨next, hnext, rfl⟩
  · rintro ⟨next, hnext, rfl⟩
    rw [hnext]
    rfl

theorem putSlots_cons_iff {key : String} {v : Value} {ms : List (String × Value)}
    {slots last : Slots fs} :
    putSlots fs ((key, v) :: ms) slots = .ok last ↔
      ∃ next, putSlot key v fs slots = .ok next ∧ putSlots fs ms next = .ok last :=
  bind_eq_ok_iff

/-- A member of no field's name is passed over. -/
theorem putSlot_unknown {key : String} (h : key ∉ fs.map Field.name) (v : Value)
    (slots : Slots fs) : putSlot key v fs slots = .ok slots := by
  induction fs with
  | nil => rfl
  | cons f fs ih =>
    obtain ⟨slot, slots⟩ := slots
    rw [List.map_cons, List.mem_cons, not_or] at h
    exact (putSlot_other_iff (Ne.symm h.1)).mpr ⟨slots, ih h.2 slots, rfl⟩

/-- The fields do not meet: each takes its own members. -/
theorem putSlots_field_iff (hname : f.name ∉ fs.map Field.name) (ms : List (String × Value))
    {slot slot' : Option f.kind.Carrier} {slots slots' : Slots fs} :
    putSlots (f :: fs) ms (slot, slots) = .ok (slot', slots') ↔
      f.Takes (valuesOf f.name ms) slot slot' ∧ putSlots fs ms slots = .ok slots' := by
  induction ms generalizing slot slots with
  | nil =>
    have hnone : valuesOf f.name [] = [] := rfl
    rw [hnone, takes_nil_iff]
    constructor
    · intro h
      obtain ⟨rfl, rfl⟩ := Prod.mk.inj (Except.ok.inj h)
      exact ⟨rfl, rfl⟩
    · rintro ⟨rfl, h⟩
      obtain rfl := Except.ok.inj h
      rfl
  | cons member ms ih =>
    obtain ⟨key, v⟩ := member
    rw [putSlots_cons_iff]
    by_cases hkey : f.name = key
    · subst hkey
      rw [putSlot_unknown hname, valuesOf_cons_self, takes_cons_iff]
      constructor
      · intro h
        obtain ⟨next, hnext, hrest⟩ := putSlots_cons_iff.mp h
        obtain ⟨c, hslot, hc, rfl⟩ := putSlot_self_iff.mp hnext
        obtain ⟨htakes, hslots⟩ := ih.mp hrest
        exact ⟨⟨c, hslot, hc, htakes⟩, slots, rfl, hslots⟩
      · rintro ⟨⟨c, hslot, hc, htakes⟩, next, hnext, hslots⟩
        obtain rfl := Except.ok.inj hnext
        exact putSlots_cons_iff.mpr ⟨(some c, slots), putSlot_self_iff.mpr ⟨c, hslot, hc, rfl⟩,
          ih.mpr ⟨htakes, hslots⟩⟩
    · rw [valuesOf_cons_of_ne (Ne.symm hkey)]
      constructor
      · intro h
        obtain ⟨filled, hfilled, hrest⟩ := putSlots_cons_iff.mp h
        obtain ⟨next, hnext, rfl⟩ := (putSlot_other_iff hkey).mp hfilled
        obtain ⟨htakes, hslots⟩ := ih.mp hrest
        exact ⟨htakes, next, hnext, hslots⟩
      · rintro ⟨htakes, next, hnext, hslots⟩
        exact putSlots_cons_iff.mpr ⟨(slot, next),
          (putSlot_other_iff hkey).mpr ⟨next, hnext, rfl⟩, ih.mpr ⟨htakes, hslots⟩⟩

theorem close_cons_iff {slot : Option f.kind.Carrier} {slots : Slots fs} {c : f.kind.Carrier}
    {row : Row fs} :
    Slots.close (f :: fs) (slot, slots) = .ok (c, row) ↔
      slot.or f.fallback = some c ∧ slots.close = .ok row := by
  rw [Slots.close]
  cases slot.or f.fallback with
  | none => simp
  | some d =>
    constructor
    · intro h
      obtain ⟨last, hlast, hrow⟩ := ok_of_map h
      obtain ⟨rfl, rfl⟩ := Prod.mk.inj hrow
      exact ⟨rfl, hlast⟩
    · rintro ⟨hc, hrow⟩
      obtain rfl : d = c := Option.some.inj hc
      rw [hrow]
      rfl

theorem holds_iff {ms : List (String × Value)} {c : f.kind.Carrier} :
    f.Holds ms c ↔
      ∃ slot, f.Takes (valuesOf f.name ms) none slot ∧ slot.or f.fallback = some c := by
  constructor
  · rintro (hone | ⟨hnone, hfallback⟩)
    · exact ⟨some c, .inr ⟨c, rfl, hone, rfl⟩, rfl⟩
    · exact ⟨none, .inl ⟨hnone, rfl⟩, hfallback⟩
  · rintro ⟨slot, ⟨hnone, rfl⟩ | ⟨d, -, hone, rfl⟩, hc⟩
    · exact .inr ⟨hnone, hc⟩
    · obtain rfl : d = c := Option.some.inj hc
      exact .inl hone

end

/-! ## All fields -/

theorem putSlots_close_iff {fs : List Field} (hnames : (fs.map Field.name).Nodup)
    (ms : List (String × Value)) (row : Row fs) :
    (∃ filled, putSlots fs ms (Slots.empty fs) = .ok filled ∧ filled.close = .ok row) ↔
      Row.Holds ms fs row := by
  induction fs with
  | nil =>
    have hslots : putSlots [] ms () = .ok () := by
      induction ms with
      | nil => rfl
      | cons member ms ih =>
        obtain ⟨key, v⟩ := member
        exact ih
    exact ⟨fun _ => trivial, fun _ => ⟨(), hslots, rfl⟩⟩
  | cons f fs ih =>
    obtain ⟨c, row⟩ := row
    rw [List.map_cons, List.nodup_cons] at hnames
    rw [Row.Holds, holds_iff, ← ih hnames.2]
    constructor
    · rintro ⟨⟨slot, slots⟩, hfilled, hclose⟩
      obtain ⟨htakes, hslots⟩ := (putSlots_field_iff hnames.1 ms).mp hfilled
      obtain ⟨hc, hrow⟩ := close_cons_iff.mp hclose
      exact ⟨⟨slot, htakes, hc⟩, slots, hslots, hrow⟩
    · rintro ⟨⟨slot, htakes, hc⟩, slots, hslots, hrow⟩
      exact ⟨(slot, slots), (putSlots_field_iff hnames.1 ms).mpr ⟨htakes, hslots⟩,
        close_cons_iff.mpr ⟨hc, hrow⟩⟩

/-- Which objects are records, and of which row. -/
theorem ofValue_object_iff {schema : Schema} (hnames : (schema.fields.map Field.name).Nodup)
    (ms : List (String × Value)) (row : Row schema.fields) :
    schema.ofValue (.object ms) = .ok row ↔ Row.Holds ms schema.fields row := by
  rw [Schema.ofValue, bind_eq_ok_iff]
  exact putSlots_close_iff hnames ms row

/-- The members of the fields decide, in any order. -/
theorem holds_of_perm {ms ms' : List (String × Value)} {fs : List Field} {row : Row fs}
    (hperm : ∀ key ∈ fs.map Field.name, (valuesOf key ms).Perm (valuesOf key ms'))
    (h : Row.Holds ms fs row) : Row.Holds ms' fs row := by
  induction fs with
  | nil => trivial
  | cons f fs ih =>
    obtain ⟨c, row⟩ := row
    have hfield := hperm f.name List.mem_cons_self
    have hrest := ih (fun key hkey => hperm key (List.mem_cons_of_mem _ hkey)) h.2
    rcases h.1 with hone | ⟨hnone, hfallback⟩
    · rw [hone] at hfield
      exact ⟨.inl (List.singleton_perm.mp hfield).symm, hrest⟩
    · rw [hnone] at hfield
      exact ⟨.inr ⟨List.nil_perm.mp hfield, hfallback⟩, hrest⟩

/-- No field has two members. -/
theorem length_of_holds {ms : List (String × Value)} {fs : List Field} {row : Row fs}
    (h : Row.Holds ms fs row) {key : String} (hkey : key ∈ fs.map Field.name) :
    (valuesOf key ms).length ≤ 1 := by
  induction fs with
  | nil => cases hkey
  | cons f fs ih =>
    obtain ⟨c, row⟩ := row
    rcases List.mem_cons.mp hkey with rfl | hkey
    · rcases h.1 with hone | ⟨hnone, -⟩
      · simp [hone]
      · simp [hnone]
    · exact ih h.2 hkey

end GameRelay.Json
