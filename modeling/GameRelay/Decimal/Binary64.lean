/-!
# Finite binary floating-point numbers

A magnitude is a count of the smallest positive 64-bit number, `2 ^ -1074`, so
two numbers are equal exactly when their sign and count are. Every operation is
exact integer arithmetic followed by one rounding to 53 significant bits, to
nearest with ties to even.
-/

set_option autoImplicit false

namespace GameRelay.Decimal

/-- A unit is `2 ^ -unitBits`. -/
def unitBits : Nat := 1074

def one : Nat := Nat.pow 2 unitBits

/-- Magnitudes from here on have no finite representation. -/
def unitLimit : Nat := Nat.pow 2 (1024 + unitBits)

structure Binary64 where
  negative : Bool
  units : Nat
  deriving DecidableEq, Repr

def roundEven (n d : Nat) : Nat :=
  if 2 * (n % d) < d then n / d
  else if d < 2 * (n % d) then n / d + 1
  else n / d + n / d % 2

/-- The exponent, in units, of the last significant bit of a magnitude. -/
def lastBit (units : Nat) : Nat := units.log2 - 52

def nearest (n d : Nat) : Nat :=
  roundEven n (d * Nat.pow 2 (lastBit (n / d))) * Nat.pow 2 (lastBit (n / d))

def ofNatural (n : Nat) : Nat := nearest (n * one) 1

def times (a b : Nat) : Nat := nearest (a * b) one

def dividedBy (a b : Nat) : Nat := nearest (a * one) b

def maxTen : Nat := 308

def powerOfTen (k : Nat) : Nat := ofNatural (Nat.pow 10 k)

def sink : Nat → Nat → Nat
  | 0, units => units
  | times + 1, units =>
    if units = 0 then 0 else sink times (dividedBy units (powerOfTen maxTen))

/-- The magnitude of `significand · 10 ^ exponent`: the significand is rounded
first, then multiplied or divided once by a rounded power of ten. Exponents
below `-308` divide by `10 ^ 308` first. `none` means out of range. -/
def scale (significand : Nat) (exponent : Int) : Option Nat :=
  match exponent with
  | .ofNat k =>
    if significand = 0 then some 0
    else if maxTen < k then none
    else
      let units := times (ofNatural significand) (powerOfTen k)
      if units < unitLimit then some units else none
  | .negSucc k =>
    some (dividedBy (sink (k / maxTen) (ofNatural significand)) (powerOfTen (k % maxTen + 1)))

namespace Binary64

def zero : Binary64 := ⟨false, 0⟩

def same (a b : Binary64) : Bool :=
  a.units == b.units && (a.negative == b.negative || a.units == 0)

end Binary64

end GameRelay.Decimal
