import GameRelay.Proofs.Json.Extension.Turn

/-!
# Values of a text that goes on

Lists and objects close themselves, and a scalar does unless it is a number. What
has been read before stays the same with more fuel and with more text behind it.
-/

set_option autoImplicit false

namespace GameRelay.Json

/-! ## Values -/

section
variable {fuel room : Nat} {first : Bool} {s r : List Char}

/-- What a value was read from. -/
theorem readValue_cases {v : Value} (h : readValue fuel room s = .ok (v, r)) :
    ∃ fuel', fuel = fuel' + 1 ∧
      ((∃ rest items, skipSpace s = '[' :: rest ∧ 1 < room ∧
          readItems fuel' (room - 1) true rest = .ok (items, r) ∧ v = .list items) ∨
        (∃ rest members, skipSpace s = '\x7b' :: rest ∧ 1 < room ∧
          readMembers fuel' (room - 1) true rest = .ok (members, r) ∧ v = .ofMembers members) ∨
        ∃ c rest, skipSpace s = c :: rest ∧ c ≠ '[' ∧ c ≠ '\x7b' ∧
          readScalar (c :: rest) = .ok (v, r)) := by
  cases fuel with
  | zero => simp [readValue] at h
  | succ fuel =>
    refine ⟨fuel, rfl, ?_⟩
    rw [readValue] at h
    cases hs : skipSpace s with
    | nil => simp [hs, readScalar] at h
    | cons c rest =>
      rw [hs] at h
      by_cases hlist : c = '['
      · subst hlist
        by_cases hroom : room ≤ 1
        · simp [hroom] at h
        · simp only [if_neg hroom] at h
          obtain ⟨⟨items, left⟩, hitems, hv⟩ := ok_of_map h
          obtain ⟨rfl, rfl⟩ := Prod.mk.inj hv
          exact .inl ⟨rest, items, rfl, Nat.lt_of_not_le hroom, hitems, rfl⟩
      · by_cases hobject : c = '\x7b'
        · subst hobject
          by_cases hroom : room ≤ 1
          · simp [hroom] at h
          · simp only [if_neg hroom] at h
            obtain ⟨⟨members, left⟩, hmembers, hv⟩ := ok_of_map h
            obtain ⟨rfl, rfl⟩ := Prod.mk.inj hv
            exact .inr (.inl ⟨rest, members, rfl, Nat.lt_of_not_le hroom, hmembers, rfl⟩)
        · have hscalar : readScalar (c :: rest) = .ok (v, r) := by simpa [hlist, hobject] using h
          exact .inr (.inr ⟨c, rest, rfl, hlist, hobject, hscalar⟩)

theorem readItems_cases {items : List Value} (h : readItems fuel room first s = .ok (items, r)) :
    ∃ fuel', fuel = fuel' + 1 ∧
      ((nextItem first s = .ok (.close r) ∧ items = []) ∨
        ∃ rest v left more, nextItem first s = .ok (.entry rest) ∧
          readValue fuel' room rest = .ok (v, left) ∧
          readItems fuel' room false left = .ok (more, r) ∧ items = v :: more) := by
  cases fuel with
  | zero => simp [readItems] at h
  | succ fuel =>
    refine ⟨fuel, rfl, ?_⟩
    rw [readItems] at h
    obtain ⟨turn, hturn, h⟩ := ok_of_bind h
    cases turn with
    | close rest =>
      obtain ⟨rfl, rfl⟩ := Prod.mk.inj (Except.ok.inj h)
      exact .inl ⟨hturn, rfl⟩
    | entry rest =>
      obtain ⟨⟨v, left⟩, hvalue, h⟩ := ok_of_bind h
      obtain ⟨⟨more, last⟩, hmore, h⟩ := ok_of_bind h
      obtain ⟨rfl, rfl⟩ := Prod.mk.inj (Except.ok.inj h)
      exact .inr ⟨rest, v, left, more, hturn, hvalue, hmore, rfl⟩

theorem readMembers_cases {members : List (String × Value)}
    (h : readMembers fuel room first s = .ok (members, r)) :
    ∃ fuel', fuel = fuel' + 1 ∧
      ((nextMember first s = .ok (.close r) ∧ members = []) ∨
        ∃ inside key colon rest v left more, nextMember first s = .ok (.entry inside) ∧
          readText [] inside = .ok (key, colon) ∧ readColon colon = .ok rest ∧
          readValue fuel' room rest = .ok (v, left) ∧
          readMembers fuel' room false left = .ok (more, r) ∧ members = (key, v) :: more) := by
  cases fuel with
  | zero => simp [readMembers] at h
  | succ fuel =>
    refine ⟨fuel, rfl, ?_⟩
    rw [readMembers] at h
    obtain ⟨turn, hturn, h⟩ := ok_of_bind h
    cases turn with
    | close rest =>
      obtain ⟨rfl, rfl⟩ := Prod.mk.inj (Except.ok.inj h)
      exact .inl ⟨hturn, rfl⟩
    | entry inside =>
      obtain ⟨⟨key, colon⟩, hkey, h⟩ := ok_of_bind h
      obtain ⟨rest, hcolon, h⟩ := ok_of_bind h
      obtain ⟨⟨v, left⟩, hvalue, h⟩ := ok_of_bind h
      obtain ⟨⟨more, last⟩, hmore, h⟩ := ok_of_bind h
      obtain ⟨rfl, rfl⟩ := Prod.mk.inj (Except.ok.inj h)
      exact .inr ⟨inside, key, colon, rest, v, left, more, hturn, hkey, hcolon, hvalue, hmore, rfl⟩

/-- A list is read to its bracket, hence not from the end of a text. -/
theorem readItems_ne_nil {items : List Value} (h : readItems fuel room first s = .ok (items, r)) :
    s ≠ [] := by
  rintro rfl
  obtain ⟨fuel', -, ⟨hclose, -⟩ | ⟨rest, -, -, -, hentry, -⟩⟩ := readItems_cases h
  · cases hclose
  · cases hentry

theorem readMembers_ne_nil {members : List (String × Value)}
    (h : readMembers fuel room first s = .ok (members, r)) : s ≠ [] := by
  rintro rfl
  obtain ⟨fuel', -, ⟨hclose, -⟩ | ⟨inside, -, -, -, -, -, -, hentry, -⟩⟩ := readMembers_cases h
  · cases hclose
  · cases hentry

end

mutual
theorem readValue_extend {fuel fuel' room : Nat} {s r : List Char} {v : Value}
    (hfuel : fuel ≤ fuel') (h : readValue fuel room s = .ok (v, r)) (hr : r ≠ []) (t : List Char) :
    readValue fuel' room (s ++ t) = .ok (v, r ++ t) := by
  obtain ⟨fuel, rfl, hread⟩ := readValue_cases h
  obtain ⟨fuel', rfl⟩ : ∃ n, fuel' = n + 1 := ⟨fuel' - 1, by omega⟩
  rw [readValue]
  rcases hread with ⟨rest, items, hs, hroom, hitems, rfl⟩ |
    ⟨rest, members, hs, hroom, hmembers, rfl⟩ | ⟨c, rest, hs, hlist, hobject, hscalar⟩
  · simp only [skipSpace_extend hs, if_neg (Nat.not_le.mpr hroom),
      readItems_extend (Nat.le_of_succ_le_succ hfuel) hitems t]
    rfl
  · simp only [skipSpace_extend hs, if_neg (Nat.not_le.mpr hroom),
      readMembers_extend (Nat.le_of_succ_le_succ hfuel) hmembers t]
    rfl
  · simpa [skipSpace_extend hs, hlist, hobject] using readScalar_extend hscalar hr t
termination_by fuel

theorem readItems_extend {fuel fuel' room : Nat} {first : Bool} {s r : List Char}
    {items : List Value} (hfuel : fuel ≤ fuel')
    (h : readItems fuel room first s = .ok (items, r)) (t : List Char) :
    readItems fuel' room first (s ++ t) = .ok (items, r ++ t) := by
  obtain ⟨fuel, rfl, hread⟩ := readItems_cases h
  obtain ⟨fuel', rfl⟩ : ∃ n, fuel' = n + 1 := ⟨fuel' - 1, by omega⟩
  rw [readItems]
  rcases hread with ⟨hturn, rfl⟩ | ⟨rest, v, left, more, hturn, hvalue, hmore, rfl⟩
  · rw [nextItem_extend hturn]
    rfl
  · rw [nextItem_extend hturn]
    simp only [bind, Except.bind, Turn.extend,
      readValue_extend (Nat.le_of_succ_le_succ hfuel) hvalue (readItems_ne_nil hmore) t,
      readItems_extend (Nat.le_of_succ_le_succ hfuel) hmore t]
    rfl
termination_by fuel

theorem readMembers_extend {fuel fuel' room : Nat} {first : Bool} {s r : List Char}
    {members : List (String × Value)} (hfuel : fuel ≤ fuel')
    (h : readMembers fuel room first s = .ok (members, r)) (t : List Char) :
    readMembers fuel' room first (s ++ t) = .ok (members, r ++ t) := by
  obtain ⟨fuel, rfl, hread⟩ := readMembers_cases h
  obtain ⟨fuel', rfl⟩ : ∃ n, fuel' = n + 1 := ⟨fuel' - 1, by omega⟩
  rw [readMembers]
  rcases hread with ⟨hturn, rfl⟩ |
    ⟨inside, key, colon, rest, v, left, more, hturn, hkey, hcolon, hvalue, hmore, rfl⟩
  · rw [nextMember_extend hturn]
    rfl
  · rw [nextMember_extend hturn]
    simp only [bind, Except.bind, Turn.extend, readText_extend hkey t, readColon_extend hcolon t,
      readValue_extend (Nat.le_of_succ_le_succ hfuel) hvalue (readMembers_ne_nil hmore) t,
      readMembers_extend (Nat.le_of_succ_le_succ hfuel) hmore t]
    rfl
termination_by fuel
end

/-! ## Skipped values -/

theorem skipItems_ne_nil {fuel : Nat} {first : Bool} {s r : List Char}
    (h : skipItems fuel first s = .ok r) : s ≠ [] := by
  rintro rfl
  cases fuel with
  | zero => simp [skipItems] at h
  | succ fuel => simp [skipItems, skipToItem, skipSpace, bind, Except.bind] at h

theorem skipMembers_ne_nil {fuel : Nat} {first : Bool} {s r : List Char}
    (h : skipMembers fuel first s = .ok r) : s ≠ [] := by
  rintro rfl
  cases fuel with
  | zero => simp [skipMembers] at h
  | succ fuel => simp [skipMembers, skipToMember, skipSpace, bind, Except.bind] at h

mutual
theorem skipValue_extend {fuel fuel' : Nat} {s r : List Char} (hfuel : fuel ≤ fuel')
    (h : skipValue fuel s = .ok r) (hr : r ≠ []) (t : List Char) :
    skipValue fuel' (s ++ t) = .ok (r ++ t) := by
  match fuel with
  | 0 => simp [skipValue] at h
  | fuel + 1 =>
    obtain ⟨fuel', rfl⟩ : ∃ n, fuel' = n + 1 := ⟨fuel' - 1, by omega⟩
    rw [skipValue] at h ⊢
    cases hs : skipSpace s with
    | nil => simp [hs, skipScalar] at h
    | cons c rest =>
      rw [hs] at h
      rw [skipSpace_extend hs]
      by_cases hlist : c = '['
      · subst hlist
        exact skipItems_extend (Nat.le_of_succ_le_succ hfuel) h t
      · by_cases hobject : c = '\x7b'
        · subst hobject
          exact skipMembers_extend (Nat.le_of_succ_le_succ hfuel) h t
        · have hscalar : skipScalar (c :: rest) = .ok r := by simpa [hlist, hobject] using h
          simpa [hlist, hobject] using skipScalar_extend hscalar hr t

theorem skipItems_extend {fuel fuel' : Nat} {first : Bool} {s r : List Char}
    (hfuel : fuel ≤ fuel') (h : skipItems fuel first s = .ok r) (t : List Char) :
    skipItems fuel' first (s ++ t) = .ok (r ++ t) := by
  match fuel with
  | 0 => simp [skipItems] at h
  | fuel + 1 =>
    obtain ⟨fuel', rfl⟩ : ∃ n, fuel' = n + 1 := ⟨fuel' - 1, by omega⟩
    rw [skipItems] at h ⊢
    obtain ⟨turn, hturn, h⟩ := ok_of_bind h
    rw [skipToItem_extend hturn]
    cases turn with
    | close rest =>
      obtain rfl := Except.ok.inj h
      rfl
    | entry rest =>
      obtain ⟨left, hvalue, h⟩ := ok_of_bind h
      simp only [bind, Except.bind, Turn.extend,
        skipValue_extend (Nat.le_of_succ_le_succ hfuel) hvalue (skipItems_ne_nil h) t]
      exact skipItems_extend (Nat.le_of_succ_le_succ hfuel) h t

theorem skipMembers_extend {fuel fuel' : Nat} {first : Bool} {s r : List Char}
    (hfuel : fuel ≤ fuel') (h : skipMembers fuel first s = .ok r) (t : List Char) :
    skipMembers fuel' first (s ++ t) = .ok (r ++ t) := by
  match fuel with
  | 0 => simp [skipMembers] at h
  | fuel + 1 =>
    obtain ⟨fuel', rfl⟩ : ∃ n, fuel' = n + 1 := ⟨fuel' - 1, by omega⟩
    rw [skipMembers] at h ⊢
    obtain ⟨turn, hturn, h⟩ := ok_of_bind h
    rw [skipToMember_extend hturn]
    cases turn with
    | close rest =>
      obtain rfl := Except.ok.inj h
      rfl
    | entry rest =>
      obtain ⟨s₁, htext, h⟩ := ok_of_bind h
      obtain ⟨s₂, hcolon, h⟩ := ok_of_bind h
      obtain ⟨s₃, hvalue, h⟩ := ok_of_bind h
      simp only [bind, Except.bind, Turn.extend, skipText_extend htext t,
        readColon_extend hcolon t,
        skipValue_extend (Nat.le_of_succ_le_succ hfuel) hvalue (skipMembers_ne_nil h) t]
      exact skipMembers_extend (Nat.le_of_succ_le_succ hfuel) h t
end

end GameRelay.Json
