import GameRelay.Json.Value
import GameRelay.Decimal.Shortest

/-!
# Writing JSON

Compact text, members in the order in which they stand. A text escapes the
quote, the backslash and the controls below the space, and nothing else. A
floating-point number has its shortest digits: positional from `1e-5` up to
`1e16`, always with a point, and scientific with a signed exponent elsewhere.
-/

set_option autoImplicit false

namespace GameRelay.Json

open GameRelay.Decimal

def hexDigit (n : Nat) : Char := Nat.digitChar n

def escapeChar (c : Char) : List Char :=
  match c with
  | '"' => ['\\', '"']
  | '\\' => ['\\', '\\']
  | '\x08' => ['\\', 'b']
  | '\x0c' => ['\\', 'f']
  | '\n' => ['\\', 'n']
  | '\r' => ['\\', 'r']
  | '\t' => ['\\', 't']
  | c =>
    if c.toNat < 0x20 then ['\\', 'u', '0', '0', hexDigit (c.toNat / 16), hexDigit (c.toNat % 16)]
    else [c]

def textChars (s : String) : List Char :=
  '"' :: s.toList.flatMap escapeChar ++ ['"']

def natChars (n : Nat) : List Char := Nat.toDigits 10 n

def intChars : Int → List Char
  | .ofNat n => natChars n
  | .negSucc n => '-' :: natChars (n + 1)

/-- Decimal digits with a point: the number is `digits · 10 ^ exponent`. -/
def positional (digits : List Char) (exponent : Int) : List Char :=
  let point := digits.length + exponent
  if 0 ≤ exponent then digits ++ List.replicate exponent.toNat '0' ++ ['.', '0']
  else if 0 < point then digits.take point.toNat ++ '.' :: digits.drop point.toNat
  else '0' :: '.' :: List.replicate (-point).toNat '0' ++ digits

def scientific (digits : List Char) (exponent : Int) : List Char :=
  let power := digits.length + exponent - 1
  let fraction := if digits.tail.isEmpty then [] else '.' :: digits.tail
  digits.take 1 ++ fraction ++ 'e' :: (if power < 0 then '-' else '+') :: natChars power.natAbs

def magnitudeText (units : Nat) : List Char :=
  let d := shortest units
  let digits := natChars d.digits
  let point := digits.length + d.exponent
  if -5 < point ∧ point ≤ 16 then positional digits d.exponent
  else scientific digits d.exponent

def floatText (x : Binary64) : List Char :=
  if x.negative then '-' :: magnitudeText x.units else magnitudeText x.units

def Number.chars : Number → List Char
  | .int i _ => intChars i
  | .float x => floatText x

namespace Value

mutual
def chars : Value → List Char
  | .null => "null".toList
  | .bool true => "true".toList
  | .bool false => "false".toList
  | .number n => n.chars
  | .text s => textChars s
  | .list items => '[' :: itemChars items ++ [']']
  | .object members => '\x7b' :: memberChars members ++ ['\x7d']

def itemChars : List Value → List Char
  | [] => []
  | [v] => chars v
  | v :: rest => chars v ++ ',' :: itemChars rest

def memberChars : List (String × Value) → List Char
  | [] => []
  | [(k, v)] => textChars k ++ ':' :: chars v
  | (k, v) :: rest => textChars k ++ ':' :: chars v ++ ',' :: memberChars rest
end

def print (v : Value) : String := String.ofList v.chars

end Value

end GameRelay.Json
