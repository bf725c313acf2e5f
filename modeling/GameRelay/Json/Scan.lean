import GameRelay.Json.Fault

/-!
# Pieces of a JSON text

Each reader takes the unread text and gives what it read together with the text
that is left, or the fault that stopped it. Literals, numbers and texts are read
here; a piece that is only skipped is checked for its form alone, so the two
halves of a surrogate pair need not meet and a number may be out of range.
-/

set_option autoImplicit false

namespace GameRelay.Json

open GameRelay.Decimal

abbrev Read (α : Type) := Except Fault (α × List Char)

def isSpace (c : Char) : Bool := c == ' ' || c == '\t' || c == '\n' || c == '\r'

def skipSpace (s : List Char) : List Char := s.dropWhile isSpace

def readLetters : List Char → List Char → Except Fault (List Char)
  | [], s => .ok s
  | _ :: _, [] => .error (.here .endInValue [])
  | letter :: letters, c :: s =>
    if c = letter then readLetters letters s else .error ⟨.expectedLiteral, c :: s, 1⟩

/-! ## Numbers -/

def isDigit (c : Char) : Bool := '0' ≤ c && c ≤ '9'

def digitValue (c : Char) : Nat := c.toNat - '0'.toNat

def takeDigits (s : List Char) : List Char × List Char := s.span isDigit

/-- Appends digits to a number while it fits in an unsigned 64-bit word, and
counts the digits that were appended. -/
def absorb : Nat → List Char → Nat × Nat
  | significand, [] => (significand, 0)
  | significand, d :: rest =>
    let next := significand * 10 + digitValue d
    if next < UInt64.size then
      let (total, count) := absorb next rest
      (total, count + 1)
    else (significand, 0)

def readWhole (s : List Char) : Read (List Char) :=
  match s with
  | [] => .error (.here .endInValue [])
  | c :: rest =>
    if c = '0' then
      match rest with
      | d :: more =>
        if isDigit d then .error (.peek .invalidNumber (d :: more)) else .ok (['0'], rest)
      | [] => .ok (['0'], [])
    else if isDigit c then .ok (takeDigits s)
    else .error ⟨.invalidNumber, s, 1⟩

def readFraction (s : List Char) : Read (Option (List Char)) :=
  match s with
  | '.' :: rest =>
    match takeDigits rest with
    | ([], []) => .error (.peek .endInValue [])
    | ([], more) => .error (.peek .invalidNumber more)
    | (digits, more) => .ok (some digits, more)
  | _ => .ok (none, s)

/-- Exponents are refused, or taken for endless, above this one. -/
def maxExponent : Nat := 2147483647

/-- The value of exponent digits; `none` together with what follows the first
digit that makes it too large. -/
def exponentValue : Nat → List Char → Option Nat × List Char
  | value, [] => (some value, [])
  | value, c :: rest =>
    if isDigit c then
      let next := value * 10 + digitValue c
      if maxExponent < next then (none, rest) else exponentValue next rest
    else (some value, c :: rest)

def isExponentMark (c : Char) : Bool := c == 'e' || c == 'E'

def readSign (s : List Char) : Bool × List Char :=
  match s with
  | '+' :: rest => (false, rest)
  | '-' :: rest => (true, rest)
  | _ => (false, s)

def readExponent (s : List Char) : Read (Option (Bool × Option Nat)) :=
  match s with
  | c :: rest =>
    if isExponentMark c then
      let (negative, digits) := readSign rest
      match digits with
      | [] => .error (.here .endInValue [])
      | d :: more =>
        if isDigit d then
          let (value, left) := exponentValue (digitValue d) more
          .ok (some (negative, value), left)
        else .error ⟨.invalidNumber, digits, 1⟩
    else .ok (none, s)
  | [] => .ok (none, [])

def finite (negative : Bool) (significand : Nat) (exponent : Int) (rest : List Char) :
    Read Number :=
  match scale significand exponent with
  | some units => .ok (.float ⟨negative, units⟩, rest)
  | none => .error (.here .outOfRange rest)

def integer (negative : Bool) (significand : Nat) : Number :=
  let value : Int := if negative then -significand else significand
  if h : Integral value ∧ (negative = true → significand ≠ 0) then .int value h.1
  else .float ⟨negative, ofNatural significand⟩

def readMagnitude (negative : Bool) (s : List Char) : Except Fault (Number × List Char) := do
  let (whole, s) ← readWhole s
  let (fraction, s) ← readFraction s
  let (exponent, s) ← readExponent s
  let (high, taken) := absorb 0 whole
  let dropped := whole.length - taken
  let (significand, places) := absorb high (fraction.getD [])
  let shift : Int := dropped - places
  match fraction, exponent with
  | none, none =>
    if dropped = 0 then .ok (integer negative significand, s)
    else finite negative significand shift s
  | _, none => finite negative significand shift s
  | _, some (false, some e) => finite negative significand (shift + e) s
  | _, some (true, some e) => finite negative significand (shift - e) s
  | _, some (false, none) =>
    if significand = 0 then .ok (.float ⟨negative, 0⟩, (takeDigits s).2)
    else .error (.here .outOfRange s)
  | _, some (true, none) => .ok (.float ⟨negative, 0⟩, (takeDigits s).2)

def readNumber (s : List Char) : Read Number :=
  match s with
  | '-' :: rest => readMagnitude true rest
  | _ => readMagnitude false s

def skipExponent (s : List Char) : Except Fault (List Char) :=
  match s with
  | c :: rest =>
    if isExponentMark c then
      let digits := (readSign rest).2
      match digits with
      | [] => .error (.here .invalidNumber [])
      | d :: more =>
        if isDigit d then .ok (takeDigits more).2 else .error ⟨.invalidNumber, digits, 1⟩
    else .ok s
  | [] => .ok []

def skipFraction (s : List Char) : Except Fault (List Char) :=
  match s with
  | '.' :: rest =>
    match takeDigits rest with
    | ([], more) => .error (.peek .invalidNumber more)
    | (_, more) => .ok more
  | _ => .ok s

def skipWhole (s : List Char) : Except Fault (List Char) :=
  match s with
  | [] => .error (.here .invalidNumber [])
  | _ :: _ => (readWhole s).map Prod.snd

def skipNumber (s : List Char) : Except Fault (List Char) := do
  let s ← skipWhole (if s.head? = some '-' then s.tail else s)
  let s ← skipFraction s
  skipExponent s

/-! ## Texts -/

def hexValue? (c : Char) : Option Nat :=
  if '0' ≤ c && c ≤ '9' then some (c.toNat - '0'.toNat)
  else if 'a' ≤ c && c ≤ 'f' then some (c.toNat - 'a'.toNat + 10)
  else if 'A' ≤ c && c ≤ 'F' then some (c.toNat - 'A'.toNat + 10)
  else none

def hexFour? (a b c d : Char) : Option Nat := do
  return (((← hexValue? a) * 16 + (← hexValue? b)) * 16 + (← hexValue? c)) * 16 + (← hexValue? d)

/-- Four bytes are taken before they are looked at. -/
def badHex (s : List Char) : Fault :=
  if 4 ≤ byteCount s then ⟨.invalidEscape, s, 4⟩ else .here .endInText []

def shortEscape? (c : Char) : Option Char :=
  match c with
  | '"' => some '"'
  | '\\' => some '\\'
  | '/' => some '/'
  | 'b' => some '\x08'
  | 'f' => some '\x0c'
  | 'n' => some '\n'
  | 'r' => some '\r'
  | 't' => some '\t'
  | _ => none

def isLeading (n : Nat) : Bool := 0xd800 ≤ n && n ≤ 0xdbff

def isTrailing (n : Nat) : Bool := 0xdc00 ≤ n && n ≤ 0xdfff

def joinSurrogates (leading trailing : Nat) : Char :=
  Char.ofNat ((leading - 0xd800) * 0x400 + (trailing - 0xdc00) + 0x10000)

def unpaired : List Char → Fault
  | [] => .here .endInText []
  | '\\' :: [] => .here .endInText []
  | '\\' :: s => ⟨.unfinishedSurrogates, s, 1⟩
  | s => ⟨.unfinishedSurrogates, s, 1⟩

/-- The rest of a text after its opening quote; `known` is what was read, last first. -/
def readText (known : List Char) (s : List Char) : Read String :=
  match s with
  | [] => .error (.here .endInText [])
  | '"' :: rest => .ok (String.ofList known.reverse, rest)
  | '\\' :: 'u' :: a :: b :: c :: d :: rest =>
    match hexFour? a b c d with
    | none => .error (badHex (a :: b :: c :: d :: rest))
    | some n =>
      if isTrailing n then .error (.here .loneSurrogate rest)
      else if isLeading n then
        match rest with
        | '\\' :: 'u' :: a :: b :: c :: d :: more =>
          match hexFour? a b c d with
          | none => .error (badHex (a :: b :: c :: d :: more))
          | some m =>
            if isTrailing m then readText (joinSurrogates n m :: known) more
            else .error (.here .loneSurrogate more)
        | '\\' :: 'u' :: short => .error (badHex short)
        | _ => .error (unpaired rest)
      else readText (Char.ofNat n :: known) rest
  | '\\' :: 'u' :: short => .error (badHex short)
  | '\\' :: [] => .error (.here .endInText [])
  | '\\' :: c :: rest =>
    match shortEscape? c with
    | some plain => readText (plain :: known) rest
    | none => .error ⟨.invalidEscape, c :: rest, 1⟩
  | c :: rest =>
    if c.toNat < 0x20 then .error ⟨.controlCharacter, c :: rest, 1⟩
    else readText (c :: known) rest

def skipText (s : List Char) : Except Fault (List Char) :=
  match s with
  | [] => .error (.here .endInText [])
  | '"' :: rest => .ok rest
  | '\\' :: 'u' :: a :: b :: c :: d :: rest =>
    match hexFour? a b c d with
    | none => .error (badHex (a :: b :: c :: d :: rest))
    | some _ => skipText rest
  | '\\' :: 'u' :: short => .error (badHex short)
  | '\\' :: [] => .error (.here .endInText [])
  | '\\' :: c :: rest =>
    match shortEscape? c with
    | some _ => skipText rest
    | none => .error ⟨.invalidEscape, c :: rest, 1⟩
  | c :: rest =>
    if c.toNat < 0x20 then .error (.here .controlCharacter (c :: rest))
    else skipText rest

end GameRelay.Json
