import GameRelay.Proofs.Json.Extension.Record
import GameRelay.Proofs.Json.Record

/-!
# Values as they come from a text

What was read keeps its members in order, each key once, and nests no deeper than
there was room for.
-/

set_option autoImplicit false

namespace GameRelay.Json

structure WellFormed (room : Nat) (v : Value) : Prop where
  ordered : v.Ordered
  depth : v.depth < room

/-! ## Members in order -/

theorem mem_insert {key : String} {value : Value} {members : List (String × Value)}
    {member : String × Value} (h : member ∈ Value.insert key value members) :
    member = (key, value) ∨ member ∈ members := by
  induction members with
  | nil => exact .inl (List.mem_singleton.mp h)
  | cons first rest ih =>
    rw [Value.insert] at h
    split at h
    · exact (List.mem_cons.mp h).imp_right id
    · split at h
      · rcases List.mem_cons.mp h with rfl | h
        · exact .inr List.mem_cons_self
        · exact (ih h).imp_right (List.mem_cons_of_mem _)
      · exact (List.mem_cons.mp h).imp_right (List.mem_cons_of_mem _)

/-- A member is put between those of lesser and those of greater keys. -/
theorem insert_pairwise {key : String} {value : Value} {members : List (String × Value)}
    (h : (members.map Prod.fst).Pairwise (· < ·)) :
    ((Value.insert key value members).map Prod.fst).Pairwise (· < ·) := by
  induction members with
  | nil => simp [Value.insert]
  | cons first rest ih =>
    obtain ⟨k, v⟩ := first
    obtain ⟨hfirst, hrest⟩ := List.pairwise_cons.mp h
    rw [Value.insert]
    by_cases hbefore : key < k
    · rw [if_pos hbefore]
      refine List.pairwise_cons.mpr ⟨?_, h⟩
      intro other hother
      rcases List.mem_cons.mp hother with rfl | hother
      · exact hbefore
      · exact String.lt_trans hbefore (hfirst other hother)
    · rw [if_neg hbefore]
      by_cases hafter : k < key
      · rw [if_pos hafter]
        refine List.pairwise_cons.mpr ⟨?_, ih hrest⟩
        intro other hother
        obtain ⟨member, hmember, rfl⟩ := List.mem_map.mp hother
        rcases mem_insert hmember with rfl | hmember
        · exact hafter
        · exact hfirst _ (List.mem_map_of_mem hmember)
      · rw [if_neg hafter]
        obtain rfl : k = key :=
          String.le_antisymm (String.not_lt.mp hbefore) (String.not_lt.mp hafter)
        exact h

theorem foldl_insert_pairwise (members known : List (String × Value))
    (h : (known.map Prod.fst).Pairwise (· < ·)) :
    ((members.foldl (fun known member => Value.insert member.1 member.2 known) known).map
      Prod.fst).Pairwise (· < ·) := by
  induction members generalizing known with
  | nil => exact h
  | cons member rest ih => exact ih _ (insert_pairwise h)

theorem mem_foldl_insert {members known : List (String × Value)} {member : String × Value}
    (h : member ∈ members.foldl (fun known member => Value.insert member.1 member.2 known) known) :
    member ∈ known ∨ member ∈ members := by
  induction members generalizing known with
  | nil => exact .inl h
  | cons first rest ih =>
    rcases ih h with hknown | hrest
    · rcases mem_insert hknown with rfl | hknown
      · exact .inr List.mem_cons_self
      · exact .inl hknown
    · exact .inr (List.mem_cons_of_mem _ hrest)

section
variable {room : Nat}

theorem wellFormed_list {items : List Value} (hroom : 1 < room)
    (h : ∀ v ∈ items, WellFormed (room - 1) v) : WellFormed room (.list items) := by
  have hitems : Value.OrderedItems items ∧ Value.depthItems items < room - 1 := by
    induction items with
    | nil => exact ⟨trivial, by simp only [Value.depthItems]; omega⟩
    | cons v items ih =>
      have hv := h v List.mem_cons_self
      have hrest := ih fun w hw => h w (List.mem_cons_of_mem _ hw)
      have hdepth := hv.depth
      exact ⟨⟨hv.ordered, hrest.1⟩, by simp only [Value.depthItems]; omega⟩
  exact ⟨hitems.1, by simp only [Value.depth]; omega⟩

theorem wellFormed_ofMembers {members : List (String × Value)} (hroom : 1 < room)
    (h : ∀ member ∈ members, WellFormed (room - 1) member.2) :
    WellFormed room (.ofMembers members) := by
  have hordered := foldl_insert_pairwise members [] .nil
  have hmembers : ∀ known : List (String × Value),
      (∀ member ∈ known, WellFormed (room - 1) member.2) →
      Value.OrderedMembers known ∧ Value.depthMembers known < room - 1 := by
    intro known hknown
    induction known with
    | nil => exact ⟨trivial, by simp only [Value.depthMembers]; omega⟩
    | cons member known ih =>
      obtain ⟨key, v⟩ := member
      have hv := hknown (key, v) List.mem_cons_self
      have hrest := ih fun m hm => hknown m (List.mem_cons_of_mem _ hm)
      have hdepth : v.depth < room - 1 := hv.depth
      exact ⟨⟨hv.ordered, hrest.1⟩, by simp only [Value.depthMembers]; omega⟩
  have hinside := hmembers _ fun member hmember =>
    (mem_foldl_insert hmember).elim (fun hnil => absurd hnil List.not_mem_nil) (h member)
  have hdepth := hinside.2
  rw [Value.ofMembers]
  exact ⟨⟨hordered, hinside.1⟩, by simp only [Value.depth]; omega⟩

end

section
variable {s r : List Char}

theorem readScalar_wellFormed {room : Nat} (hroom : 0 < room) {v : Value}
    (h : readScalar s = .ok (v, r)) : WellFormed room v := by
  fun_cases readScalar s with
  | case1 => simp [readScalar] at h
  | case2 rest | case3 rest | case4 rest | case5 rest =>
    obtain ⟨left, -, hv⟩ := ok_of_map h
    obtain ⟨rfl, -⟩ := Prod.mk.inj hv
    exact ⟨trivial, hroom⟩
  | case6 c rest hn ht hf hquote hc =>
    rw [readScalar_digit hc] at h
    obtain ⟨left, -, hv⟩ := ok_of_map h
    obtain ⟨rfl, -⟩ := Prod.mk.inj hv
    exact ⟨trivial, hroom⟩
  | case7 c rest hn ht hf hquote hc => simp [readScalar, hc] at h

end

mutual
theorem readValue_wellFormed {fuel room : Nat} {s r : List Char} {v : Value} (hroom : 0 < room)
    (h : readValue fuel room s = .ok (v, r)) : WellFormed room v := by
  obtain ⟨fuel, rfl, hread⟩ := readValue_cases h
  rcases hread with ⟨rest, items, -, hopen, hitems, rfl⟩ |
    ⟨rest, members, -, hopen, hmembers, rfl⟩ | ⟨c, rest, -, -, -, hscalar⟩
  · exact wellFormed_list hopen (readItems_wellFormed (by omega) hitems)
  · exact wellFormed_ofMembers hopen (readMembers_wellFormed (by omega) hmembers)
  · exact readScalar_wellFormed hroom hscalar
termination_by fuel

theorem readItems_wellFormed {fuel room : Nat} {first : Bool} {s r : List Char}
    {items : List Value} (hroom : 0 < room) (h : readItems fuel room first s = .ok (items, r)) :
    ∀ v ∈ items, WellFormed room v := by
  obtain ⟨fuel, rfl, hread⟩ := readItems_cases h
  rcases hread with ⟨-, rfl⟩ | ⟨rest, v, left, more, -, hvalue, hmore, rfl⟩
  · simp
  · simp only [List.forall_mem_cons]
    exact ⟨readValue_wellFormed hroom hvalue, readItems_wellFormed hroom hmore⟩
termination_by fuel

theorem readMembers_wellFormed {fuel room : Nat} {first : Bool} {s r : List Char}
    {members : List (String × Value)} (hroom : 0 < room)
    (h : readMembers fuel room first s = .ok (members, r)) :
    ∀ member ∈ members, WellFormed room member.2 := by
  obtain ⟨fuel, rfl, hread⟩ := readMembers_cases h
  rcases hread with ⟨-, rfl⟩ |
    ⟨inside, key, colon, rest, v, left, more, -, -, -, hvalue, hmore, rfl⟩
  · simp
  · simp only [List.forall_mem_cons]
    exact ⟨readValue_wellFormed hroom hvalue, readMembers_wellFormed hroom hmore⟩
termination_by fuel
end

/-! ## Records -/

def Slots.All (P : Value → Prop) : (fs : List Field) → Slots fs → Prop
  | [], _ => True
  | f :: fs, (slot, slots) => (∀ c ∈ slot, P (f.kind.value c)) ∧ Slots.All P fs slots

theorem all_empty (P : Value → Prop) (fs : List Field) : Slots.All P fs (Slots.empty fs) := by
  induction fs with
  | nil => trivial
  | cons f fs ih => exact ⟨nofun, ih⟩

section
variable {P : Value → Prop} {fs : List Field}

theorem close_all {slots : Slots fs} {row : Row fs}
    (hfallback : ∀ f ∈ fs, ∀ c ∈ f.fallback, P (f.kind.value c)) (hslots : Slots.All P fs slots)
    (h : slots.close = .ok row) : ∀ member ∈ Row.members fs row, P member.2 := by
  induction fs with
  | nil => simp [Row.members]
  | cons f fs ih =>
    obtain ⟨slot, slots⟩ := slots
    rw [Slots.close] at h
    have hfield := hfallback f List.mem_cons_self
    cases hor : slot.or f.fallback with
    | none =>
      rw [hor] at h
      cases h
    | some c =>
      simp only [hor] at h
      obtain ⟨more, hmore, rfl⟩ := ok_of_map h
      have hc : P (f.kind.value c) := by
        cases slot with
        | none => exact hfield c (by simpa using hor)
        | some c' => exact hslots.1 c (by simpa using hor)
      have hrest := ih (fun g hg => hfallback g (List.mem_cons_of_mem _ hg)) hslots.2 hmore
      simp only [Row.members, List.forall_mem_cons]
      exact ⟨hc, hrest⟩

theorem fallbacks_all {title : String} {all index : Nat} {rest : List Char} {row : Row fs}
    (hfallback : ∀ f ∈ fs, ∀ c ∈ f.fallback, P (f.kind.value c))
    (h : fallbacks title all index rest fs = .ok row) :
    ∀ member ∈ Row.members fs row, P member.2 := by
  induction fs generalizing index with
  | nil => simp [Row.members]
  | cons f fs ih =>
    rw [fallbacks] at h
    have hfield := hfallback f List.mem_cons_self
    cases hnone : f.fallback with
    | none =>
      rw [hnone] at h
      cases h
    | some c =>
      simp only [hnone] at h
      obtain ⟨more, hmore, rfl⟩ := ok_of_map h
      have hrest := ih (fun g hg => hfallback g (List.mem_cons_of_mem _ hg)) hmore
      simp only [Row.members, List.forall_mem_cons]
      exact ⟨hfield c hnone, hrest⟩

end

section
variable {fuel room : Nat} {fs : List Field} {s r : List Char} (hroom : 0 < room)
include hroom

theorem readKind_wellFormed {k : Kind} {c : k.Carrier} (h : readKind fuel room k s = .ok (c, r)) :
    WellFormed room (k.value c) := by
  cases k with
  | any => exact readValue_wellFormed hroom h
  | text => exact ⟨trivial, hroom⟩
  | textOrNull => cases c <;> exact ⟨trivial, hroom⟩

theorem fillSlot_wellFormed {key : String} {slots filled : Slots fs}
    (hslots : Slots.All (WellFormed room) fs slots)
    (h : fillSlot fuel room key fs slots s = .ok (filled, r)) :
    Slots.All (WellFormed room) fs filled := by
  induction fs generalizing r with
  | nil => trivial
  | cons f fs ih =>
    obtain ⟨slot, slots⟩ := slots
    by_cases hkey : f.name = key
    · simp only [fillSlot, if_pos hkey] at h
      cases slot with
      | some c => cases h
      | none =>
        obtain ⟨rest, -, h⟩ := ok_of_bind h
        obtain ⟨⟨c, left⟩, hkind, h⟩ := ok_of_bind h
        obtain ⟨rfl, -⟩ := Prod.mk.inj (Except.ok.inj h)
        refine ⟨?_, hslots.2⟩
        intro c' hc
        obtain rfl : c = c' := Option.some.inj hc
        exact readKind_wellFormed hroom hkind
    · simp only [fillSlot, if_neg hkey] at h
      obtain ⟨⟨more, left⟩, hmore, h⟩ := ok_of_bind h
      obtain ⟨rfl, -⟩ := Prod.mk.inj (Except.ok.inj h)
      exact ⟨hslots.1, ih hslots.2 hmore⟩

theorem readSlots_wellFormed {first : Bool} {slots filled : Slots fs}
    (hslots : Slots.All (WellFormed room) fs slots)
    (h : readSlots fs fuel room first slots s = .ok (filled, r)) :
    Slots.All (WellFormed room) fs filled := by
  induction fuel generalizing first slots s with
  | zero => simp [readSlots] at h
  | succ fuel ih =>
    rw [readSlots] at h
    obtain ⟨turn, -, h⟩ := ok_of_bind h
    cases turn with
    | close rest =>
      obtain ⟨rfl, -⟩ := Prod.mk.inj (Except.ok.inj h)
      exact hslots
    | entry rest =>
      obtain ⟨⟨key, colon⟩, -, h⟩ := ok_of_bind h
      obtain ⟨⟨next, left⟩, hfill, h⟩ := ok_of_bind h
      exact ih (fillSlot_wellFormed hroom hslots hfill) h

theorem readRow_wellFormed {title : String} {all index : Nat} {row : Row fs}
    (hfallback : ∀ f ∈ fs, ∀ c ∈ f.fallback, WellFormed room (f.kind.value c))
    (h : readRow title all fuel room index fs s = .ok (row, r)) :
    ∀ member ∈ Row.members fs row, WellFormed room member.2 := by
  induction fs generalizing index s r with
  | nil => simp [Row.members]
  | cons f fs ih =>
    rw [readRow] at h
    obtain ⟨turn, -, h⟩ := ok_of_bind h
    cases turn with
    | close rest =>
      obtain ⟨row', hrow, h⟩ := ok_of_bind h
      obtain ⟨rfl, -⟩ := Prod.mk.inj (Except.ok.inj h)
      exact fallbacks_all hfallback hrow
    | entry rest =>
      obtain ⟨⟨c, left⟩, hkind, h⟩ := ok_of_bind h
      obtain ⟨⟨more, last⟩, hmore, h⟩ := ok_of_bind h
      obtain ⟨rfl, -⟩ := Prod.mk.inj (Except.ok.inj h)
      have hrest := ih (fun g hg => hfallback g (List.mem_cons_of_mem _ hg)) hmore
      simp only [Row.members, List.forall_mem_cons]
      exact ⟨readKind_wellFormed hroom hkind, hrest⟩

end

/-- Every value of a record that was read is well-formed, within what its record leaves. -/
theorem parse_wellFormed {schema : Schema} {s : List Char} {row : Row schema.fields}
    (hfallback : ∀ f ∈ schema.fields, ∀ c ∈ f.fallback,
      WellFormed (depthLimit - 1) (f.kind.value c))
    (h : schema.parse (String.ofList s) = .ok row) :
    ∀ member ∈ Row.members schema.fields row, WellFormed (depthLimit - 1) member.2 := by
  have hroom : 0 < depthLimit - 1 := by decide
  obtain ⟨rest, hread, -⟩ := Schema.read_of_parse h
  unfold Schema.read at hread
  split at hread
  · exact readRow_wellFormed hroom hfallback hread
  · obtain ⟨⟨slots, left⟩, hslots, hread⟩ := ok_of_bind hread
    have hall := readSlots_wellFormed hroom (all_empty _ _) hslots
    cases hclose : slots.close with
    | error what =>
      simp only [hclose] at hread
      cases hread
    | ok row' =>
      simp only [hclose] at hread
      obtain ⟨rfl, -⟩ := Prod.mk.inj (Except.ok.inj hread)
      exact close_all hfallback hall hclose
  · exact (not_ok_readOther hread).elim

end GameRelay.Json
