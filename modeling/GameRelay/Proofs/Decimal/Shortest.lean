import GameRelay.Decimal.Shortest
import Mathlib.Data.Nat.Digits.Defs

/-!
# Shortest digits start with none that is zero

The grids on which digits are looked for are so fine that the number is one step of
them at least. So its lower neighbour is not zero, and neither is what is found.
-/

set_option autoImplicit false

namespace GameRelay.Decimal

section
variable {units : Nat} {exponent : Int}

def Reached (units : Nat) (exponent : Int) : Prop :=
  one * Nat.pow 10 exponent.toNat ≤ units * Nat.pow 10 (-exponent).toNat

theorem one_pos : 0 < one := by decide +kernel

theorem neighbours_pos (h : Reached units exponent) :
    0 < (neighbours units exponent).1.digits ∧ 0 < (neighbours units exponent).2.digits := by
  have hone : 0 < one * Nat.pow 10 exponent.toNat :=
    Nat.mul_pos one_pos (Nat.pow_pos (by decide))
  exact ⟨Nat.div_pos h hone, Nat.succ_pos _⟩

theorem hit?_cases {d : Digits} (h : hit? units exponent = some d) :
    d = (neighbours units exponent).1 ∨ d = (neighbours units exponent).2 := by
  simp only [hit?] at h
  split at h
  · split at h
    · exact .inl (Option.some.inj h).symm
    · split at h
      · exact .inr (Option.some.inj h).symm
      · split at h
        · exact .inl (Option.some.inj h).symm
        · exact .inr (Option.some.inj h).symm
  · exact .inl (Option.some.inj h).symm
  · exact .inr (Option.some.inj h).symm
  · cases h

theorem firstHit_pos {point : Int} (h : ∀ count : Nat, 0 < count → Reached units (point - count))
    (tries : Nat) {count : Nat} (hcount : 0 < count) :
    0 < (firstHit units point tries count).digits := by
  induction tries generalizing count with
  | zero => exact (neighbours_pos (h count hcount)).1
  | succ tries ih =>
    rw [firstHit]
    split
    · rename_i d hd
      obtain ⟨hlow, hhigh⟩ := neighbours_pos (h count hcount)
      rcases hit?_cases hd with rfl | rfl
      · exact hlow
      · exact hhigh
    · exact ih (Nat.succ_pos count)

theorem strip_pos (bound : Nat) {d : Digits} (h : 0 < d.digits) : 0 < (d.strip bound).digits := by
  induction bound generalizing d with
  | zero => exact h
  | succ bound ih =>
    rw [Digits.strip]
    split
    · apply ih
      simp only
      omega
    · exact h

end

/-! ## Where the point stands -/

theorem leadingZeros_spec {units : Nat} (bound : Nat) {start j : Nat} (hstart : start ≤ j)
    (hbound : j < start + bound) (hj : one ≤ units * Nat.pow 10 j) :
    one ≤ units * Nat.pow 10 (leadingZeros units bound start) := by
  induction bound generalizing start with
  | zero => omega
  | succ bound ih =>
    rw [leadingZeros]
    by_cases hreached : one ≤ units * Nat.pow 10 start
    · rw [if_pos hreached]
      exact hreached
    · rw [if_neg hreached]
      have hne : start ≠ j := by
        rintro rfl
        exact hreached hj
      exact ih (by omega) (by omega)

/-- The number of digits, from below. -/
theorem pow_length_le {n : Nat} (h : 0 < n) {e : Nat} (he : e < (Nat.toDigits 10 n).length) :
    Nat.pow 10 e ≤ n := by
  by_contra hlt
  have hpos : 0 < e := by
    rcases Nat.eq_zero_or_pos e with rfl | hpos
    · exact absurd h hlt
    · exact hpos
  have hlength := Nat.toDigits_length 10 n e hpos (Nat.not_le.mp hlt)
  omega

theorem pow_le_pow {i j : Nat} (h : i ≤ j) : Nat.pow 10 i ≤ Nat.pow 10 j :=
  Nat.pow_le_pow_right (by decide) h

/-- Every grid that starts behind the point is reached. -/
theorem reached_pointAt {units : Nat} (h : 0 < units) {count : Nat} (hcount : 0 < count) :
    Reached units (pointAt units - count) := by
  rw [pointAt, Reached]
  by_cases hone : one ≤ units
  · rw [if_pos hone]
    have hwhole : 0 < units / one := Nat.div_pos hone one_pos
    have hlength : 0 < (Nat.toDigits 10 (units / one)).length :=
      List.length_pos_iff.mpr Nat.toDigits_ne_nil
    generalize hlast : (((Nat.toDigits 10 (units / one)).length : Int) - count).toNat = last
    have hpow : Nat.pow 10 last ≤ units / one := pow_length_le hwhole (by omega)
    calc one * Nat.pow 10 last
      _ ≤ one * (units / one) := Nat.mul_le_mul_left one hpow
      _ ≤ units := Nat.mul_div_le units one
      _ ≤ units * Nat.pow 10 _ := Nat.le_mul_of_pos_right units (Nat.pow_pos (by decide))
  · rw [if_neg hone]
    -- The least number is above `10 ^ -324`.
    obtain ⟨j, hstart, hbound, hunit⟩ : ∃ j, 1 ≤ j ∧ j < 1 + 400 ∧ one ≤ Nat.pow 10 j :=
      ⟨324, by decide, by decide, by decide +kernel⟩
    have hleast : one ≤ units * Nat.pow 10 j := hunit.trans (Nat.le_mul_of_pos_left _ h)
    have hzeros := leadingZeros_spec 400 hstart hbound hleast
    generalize leadingZeros units 400 1 = zeros at hzeros ⊢
    have hbefore : ((1 : Int) - zeros - count).toNat = 0 := by omega
    have hbehind : zeros ≤ (-((1 : Int) - zeros - count)).toNat := by omega
    have hnone : Nat.pow 10 0 = 1 := rfl
    rw [hbefore, hnone, Nat.mul_one]
    exact hzeros.trans (Nat.mul_le_mul_left units (pow_le_pow hbehind))

/-- The digits of a number that is not zero make up no zero. -/
theorem shortest_pos {units : Nat} (h : 0 < units) : 0 < (shortest units).digits := by
  rw [shortest, if_neg (Nat.ne_of_gt h)]
  exact strip_pos 20 (firstHit_pos (fun _ => reached_pointAt h) 17 (by decide))

end GameRelay.Decimal
