import GameRelay.Decimal.Binary64

/-!
# Shortest decimal digits

The fewest decimal digits that read back as a given binary number. A decimal
reads back when it lies in the interval of reals that round to the number; the
ends belong to it exactly when the significand is even. Grids of one, two, up
to seventeen digits are tried in turn, and on the first grid with a hit the
nearer of the two neighbours of the number is taken, the even one on a tie.
-/

set_option autoImplicit false

namespace GameRelay.Decimal

/-- `digits · 10 ^ exponent` -/
structure Digits where
  digits : Nat
  exponent : Int
  deriving DecidableEq, Repr

/-- The reals that round to a magnitude, in quarter units. -/
structure Interval where
  low : Nat
  high : Nat
  closed : Bool

def Interval.around (units : Nat) : Interval :=
  let gap := Nat.pow 2 (lastBit units)
  let significand := units / gap
  let below := if significand = 0x10000000000000 ∧ 0 < lastBit units then gap else 2 * gap
  ⟨4 * units - below, 4 * units + 2 * gap, significand % 2 == 0⟩

namespace Digits

def numerator (d : Digits) : Nat := d.digits * Nat.pow 10 d.exponent.toNat * (4 * one)

def denominator (d : Digits) : Nat := Nat.pow 10 (-d.exponent).toNat

def within (d : Digits) (i : Interval) : Bool :=
  if i.closed then
    i.low * d.denominator ≤ d.numerator && d.numerator ≤ i.high * d.denominator
  else
    i.low * d.denominator < d.numerator && d.numerator < i.high * d.denominator

def distance (d : Digits) (units : Nat) : Nat :=
  let mid := 4 * units * d.denominator
  if mid ≤ d.numerator then d.numerator - mid else mid - d.numerator

end Digits

/-- The least `j` from `start` on with `1 ≤ units · 10 ^ j`, within a bound. -/
def leadingZeros (units : Nat) : Nat → Nat → Nat
  | 0, start => start
  | bound + 1, start =>
    if one ≤ units * Nat.pow 10 start then start else leadingZeros units bound (start + 1)

/-- The decimal point stands after this many digits of a positive magnitude. -/
def pointAt (units : Nat) : Int :=
  if one ≤ units then (Nat.toDigits 10 (units / one)).length
  else 1 - (leadingZeros units 400 1 : Int)

def neighbours (units : Nat) (exponent : Int) : Digits × Digits :=
  let below := units * Nat.pow 10 (-exponent).toNat / (one * Nat.pow 10 exponent.toNat)
  (⟨below, exponent⟩, ⟨below + 1, exponent⟩)

def hit? (units : Nat) (exponent : Int) : Option Digits :=
  let (low, high) := neighbours units exponent
  let around := Interval.around units
  match low.within around, high.within around with
  | true, true =>
    if low.distance units < high.distance units then some low
    else if high.distance units < low.distance units then some high
    else if low.digits % 2 = 0 then some low else some high
  | true, false => some low
  | false, true => some high
  | false, false => none

def firstHit (units : Nat) (point : Int) : Nat → Nat → Digits
  | 0, count => (neighbours units (point - count)).1
  | tries + 1, count =>
    match hit? units (point - count) with
    | some d => d
    | none => firstHit units point tries (count + 1)

def Digits.strip : Nat → Digits → Digits
  | 0, d => d
  | bound + 1, d =>
    if d.digits ≠ 0 ∧ d.digits % 10 = 0 then
      Digits.strip bound ⟨d.digits / 10, d.exponent + 1⟩
    else d

def shortest (units : Nat) : Digits :=
  if units = 0 then ⟨0, 0⟩
  else (firstHit units (pointAt units) 17 1).strip 20

end GameRelay.Decimal
