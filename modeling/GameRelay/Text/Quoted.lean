import GameRelay.Text.Hidden

/-!
# Quoted text

Text between double quotes on one printable line. The quote and the backslash
are escaped by a backslash, the four common controls by a letter, and every
other hidden character by its code point in braces.
-/

set_option autoImplicit false

namespace GameRelay.Text

def codePoint (c : Char) : List Char :=
  ['\\', 'u', '\x7b'] ++ Nat.toDigits 16 c.toNat ++ ['\x7d']

def quoteChar (c : Char) : List Char :=
  match c with
  | '\x00' => ['\\', '0']
  | '\t' => ['\\', 't']
  | '\r' => ['\\', 'r']
  | '\n' => ['\\', 'n']
  | '\\' => ['\\', '\\']
  | '"' => ['\\', '"']
  | c => if c.toNat < 0x7f ∧ 0x20 ≤ c.toNat then [c] else if isHidden c then codePoint c else [c]

def quoted (text : String) : String :=
  String.ofList ('"' :: text.toList.flatMap quoteChar ++ ['"'])

end GameRelay.Text
