import GameRelay.Json.Record
import Mathlib.Data.List.TakeDrop

/-!
# Integers as they are written and read

An integer that fits in a word of 64 bits is read back from its digits, wherever
it cannot be taken for the beginning of a longer number.
-/

set_option autoImplicit false

namespace GameRelay.Json

def NumberEnds (rest : List Char) : Prop :=
  ∀ c, rest.head? = some c → isDigit c = false ∧ c ≠ '.' ∧ isExponentMark c = false

theorem numberEnds_cons {c : Char} (h : c = ',' ∨ c = ']' ∨ c = '\x7d' ∨ c = '\n')
    (rest : List Char) : NumberEnds (c :: rest) := by
  intro d hd
  obtain rfl : c = d := Option.some.inj hd
  rcases h with rfl | rfl | rfl | rfl <;> decide

/-! ## Digits -/

theorem isDigit_of_mem_natChars {n : Nat} {c : Char} (h : c ∈ natChars n) : isDigit c = true :=
  Nat.isDigit_of_mem_toDigits (by decide) (by decide) h

theorem natChars_ne_nil (n : Nat) : natChars n ≠ [] := Nat.toDigits_ne_nil

theorem head_natChars {n : Nat} (h : 0 < n) : (natChars n).head? ≠ some '0' := by
  induction n using Nat.strongRecOn with
  | ind n ih =>
    by_cases hn : n < 10
    · have hdigit : ∀ d < 10, 0 < d → Nat.digitChar d ≠ '0' := by decide
      simp [natChars, Nat.toDigits_of_lt_base hn, hdigit n hn h]
    · have hhigh := ih (n / 10) (by omega) (by omega)
      rw [natChars, Nat.toDigits_of_base_le (by decide) (by omega)]
      cases hdigits : Nat.toDigits 10 (n / 10) with
      | nil => exact absurd hdigits Nat.toDigits_ne_nil
      | cons c digits => simpa [natChars, hdigits] using hhigh

theorem takeDigits_append {digits rest : List Char} (hdigits : ∀ c ∈ digits, isDigit c = true)
    (hrest : ∀ c, rest.head? = some c → isDigit c = false) :
    takeDigits (digits ++ rest) = (digits, rest) := by
  have hstop : rest.takeWhile isDigit = [] ∧ rest.dropWhile isDigit = rest := by
    cases rest with
    | nil => exact ⟨rfl, rfl⟩
    | cons c rest => simp [hrest c rfl]
  rw [takeDigits, List.span_eq_takeWhile_dropWhile, List.takeWhile_append_of_pos hdigits,
    List.dropWhile_append_of_pos hdigits, hstop.1, hstop.2, List.append_nil]

theorem le_ofDigitChars (digits : List Char) (n : Nat) : n ≤ Nat.ofDigitChars 10 digits n := by
  rw [Nat.ofDigitChars_eq_ofDigitChars_zero]
  have : n ≤ 10 ^ digits.length * n := Nat.le_mul_of_pos_left n (Nat.pow_pos (by decide))
  omega

/-- Digits are all taken as long as their number fits. -/
theorem absorb_eq (digits : List Char) (n : Nat)
    (h : Nat.ofDigitChars 10 digits n < UInt64.size) :
    absorb n digits = (Nat.ofDigitChars 10 digits n, digits.length) := by
  induction digits generalizing n with
  | nil => rfl
  | cons d digits ih =>
    have hnext : 10 * n + (d.toNat - '0'.toNat) = n * 10 + digitValue d := by
      rw [digitValue, Nat.mul_comm]
    rw [Nat.ofDigitChars_cons, hnext] at h ⊢
    have hlt := Nat.lt_of_le_of_lt (le_ofDigitChars digits (n * 10 + digitValue d)) h
    simp only [absorb, if_pos hlt, ih _ h, List.length_cons]

theorem absorb_natChars {n : Nat} (h : n < UInt64.size) :
    absorb 0 (natChars n) = (n, (natChars n).length) := by
  have hdigits : Nat.ofDigitChars 10 (natChars n) 0 = n := Nat.ofDigitChars_ten_toDigits
  rw [absorb_eq _ _ (by rwa [hdigits]), hdigits]

/-! ## Numbers -/

/-- A number without minus starts where its digits do. -/
theorem readNumber_plain {s : List Char} (h : s.head? ≠ some '-') :
    readNumber s = readMagnitude false s := by
  unfold readNumber
  split
  · simp at h
  · rfl

section
variable {c : Char} (hc : (c = '-' || isDigit c) = true)
include hc

/-- The minus and the digits start no other scalar. -/
theorem ne_of_digit {d : Char} (hd : (d = '-' || isDigit d) = false) : c ≠ d := by
  rintro rfl
  exact absurd (hc.symm.trans hd) (by decide)

theorem readScalar_digit (s : List Char) :
    readScalar (c :: s) = (readNumber (c :: s)).map fun read => (.number read.1, read.2) := by
  have hn : c ≠ 'n' := ne_of_digit hc (by decide)
  have ht : c ≠ 't' := ne_of_digit hc (by decide)
  have hf : c ≠ 'f' := ne_of_digit hc (by decide)
  have hquote : c ≠ '"' := ne_of_digit hc (by decide)
  rw [readScalar, if_pos hc]
  · exact hn
  · exact ht
  · exact hf
  · exact hquote

theorem skipScalar_digit (s : List Char) : skipScalar (c :: s) = skipNumber (c :: s) := by
  have hn : c ≠ 'n' := ne_of_digit hc (by decide)
  have ht : c ≠ 't' := ne_of_digit hc (by decide)
  have hf : c ≠ 'f' := ne_of_digit hc (by decide)
  have hquote : c ≠ '"' := ne_of_digit hc (by decide)
  rw [skipScalar, if_pos hc]
  · exact hn
  · exact ht
  · exact hf
  · exact hquote

end

section
variable {rest : List Char}

theorem readWhole_natChars (n : Nat) (hrest : NumberEnds rest) :
    readWhole (natChars n ++ rest) = .ok (natChars n, rest) := by
  by_cases hn : n = 0
  · subst hn
    have hzero : natChars 0 = ['0'] := Nat.toDigits_zero 10
    rw [hzero, List.singleton_append]
    cases rest with
    | nil => rfl
    | cons d more => simp [readWhole, (hrest d rfl).1]
  · cases hdigits : natChars n with
    | nil => exact absurd hdigits (natChars_ne_nil n)
    | cons c digits =>
      have hall : ∀ d ∈ c :: digits, isDigit d = true := fun d hd =>
        isDigit_of_mem_natChars (hdigits ▸ hd)
      have hc : c ≠ '0' := by
        have := head_natChars (Nat.pos_of_ne_zero hn)
        simpa [hdigits] using this
      rw [← takeDigits_append hall fun d hd => (hrest d hd).1, List.cons_append]
      simp only [readWhole, if_neg hc, if_pos (hall c List.mem_cons_self)]

theorem readMagnitude_natChars (negative : Bool) {n : Nat} (h : n < UInt64.size)
    (hrest : NumberEnds rest) :
    readMagnitude negative (natChars n ++ rest) = .ok (integer negative n, rest) := by
  have hfraction : readFraction rest = .ok (none, rest) := by
    cases rest with
    | nil => rfl
    | cons c more =>
      have hpoint := (hrest c rfl).2.1
      unfold readFraction
      split
      · simp_all
      · rfl
  have hexponent : readExponent rest = .ok (none, rest) := by
    cases rest with
    | nil => rfl
    | cons c more => simp [readExponent, (hrest c rfl).2.2]
  simp only [readMagnitude, readWhole_natChars n hrest, hfraction, hexponent, absorb_natChars h,
    Option.getD_none, absorb, bind, Except.bind, Nat.sub_self]
  rfl

theorem readNumber_intChars {i : Int} (h : Integral i) (hrest : NumberEnds rest) :
    readNumber (intChars i ++ rest) = .ok (.int i h, rest) := by
  cases i with
  | ofNat n =>
    have hn : n < UInt64.size := by
      have := h.2
      simp [UInt64.size] at this ⊢
      omega
    have hsign : (natChars n ++ rest).head? ≠ some '-' := by
      cases hdigits : natChars n with
      | nil => exact absurd hdigits (natChars_ne_nil n)
      | cons c digits =>
        have hc : isDigit c = true := isDigit_of_mem_natChars (hdigits ▸ List.mem_cons_self)
        rintro hminus
        obtain rfl : c = '-' := Option.some.inj hminus
        exact absurd hc (by decide)
    rw [intChars, readNumber_plain hsign, readMagnitude_natChars false hn hrest]
    have hinteger : integer false n = .int (.ofNat n) h := by
      have hvalue : Integral (n : Int) := h
      simp only [integer]
      exact dif_pos ⟨hvalue, nofun⟩
    rw [hinteger]
  | negSucc n =>
    have hn : n + 1 < UInt64.size := by
      have := h.1
      simp [UInt64.size] at this ⊢
      omega
    have hinteger : integer true (n + 1) = .int (.negSucc n) h := by
      have hvalue : Integral (-((n + 1 : Nat) : Int)) := h
      simp only [integer]
      exact dif_pos ⟨hvalue, fun _ => Nat.succ_ne_zero n⟩
    rw [intChars, List.cons_append, readNumber, readMagnitude_natChars true hn hrest, hinteger]

end

end GameRelay.Json
