/-!
# Durations

A duration is written in the largest of seconds, milliseconds, microseconds and
nanoseconds that has a non-zero whole part, with the fraction that is left and
no trailing zeros.
-/

set_option autoImplicit false

namespace GameRelay.Text

structure Duration where
  nanoseconds : Nat
  deriving DecidableEq, Repr

namespace Duration

def ofSeconds (seconds : Nat) : Duration := ⟨seconds * 1000000000⟩

def ofMilliseconds (milliseconds : Nat) : Duration := ⟨milliseconds * 1000000⟩

/-- The digits of `fraction / 10 ^ places`, a point before them, without trailing zeros. -/
def fractionText (fraction places : Nat) : List Char :=
  let digits := Nat.toDigits 10 fraction
  let padded := List.replicate (places - digits.length) '0' ++ digits
  let kept := (padded.reverse.dropWhile (· == '0')).reverse
  if kept.isEmpty then [] else '.' :: kept

def inUnit (nanoseconds places : Nat) (symbol : String) : String :=
  let size := Nat.pow 10 places
  String.ofList (Nat.toDigits 10 (nanoseconds / size)
    ++ fractionText (nanoseconds % size) places ++ symbol.toList)

def text (d : Duration) : String :=
  if 1000000000 ≤ d.nanoseconds then inUnit d.nanoseconds 9 "s"
  else if 1000000 ≤ d.nanoseconds then inUnit d.nanoseconds 6 "ms"
  else if 1000 ≤ d.nanoseconds then inUnit d.nanoseconds 3 "µs"
  else inUnit d.nanoseconds 0 "ns"

end Duration

end GameRelay.Text
