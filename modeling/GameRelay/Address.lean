import GameRelay.SystemError
import GameRelay.Text.Numeral

/-!
# Socket addresses

An address to listen on is a host, a colon and a port, split at the last colon.
The host is an IPv4 address, in which numbers of several bases and of several
bytes may stand, or an IPv6 address, in brackets or bare, with or without the
number of an interface. The interface of a bare address of one link may be given
by its name. Anything else is the name of a host, and names are not looked up
here.
-/

set_option autoImplicit false

namespace GameRelay

open GameRelay.Text

inductive Ip where
  | v4 (a b c d : Nat)
  | v6 (groups : List Nat)
  deriving DecidableEq, Repr

structure SocketAddress where
  ip : Ip
  port : Nat
  /-- The number of the interface of an IPv6 address, or zero. -/
  scope : Nat := 0
  deriving DecidableEq, Repr

inductive AddressError where
  | noColon
  | badPort
  /-- The name of a host, which is not looked up. -/
  | hostName (host : String) (port : Nat)
  deriving DecidableEq, Repr

/-- Without a resolver no name is known, and one with a null byte cannot even be asked for. -/
def AddressError.toSystem : AddressError → SystemError
  | .noColon => .reason "invalid socket address"
  | .badPort => .reason "invalid port value"
  | .hostName host _ =>
    if host.toList.contains '\x00' then .reason "file name contained an unexpected NUL byte"
    else .reason "failed to lookup address information: Name or service not known"

namespace Ip

/-! ## Reading -/

def digit? (base : Nat) (c : Char) : Option Nat :=
  let value? :=
    if '0' ≤ c && c ≤ '9' then some (c.toNat - '0'.toNat)
    else if 'a' ≤ c && c ≤ 'f' then some (c.toNat - 'a'.toNat + 10)
    else if 'A' ≤ c && c ≤ 'F' then some (c.toNat - 'A'.toNat + 10)
    else none
  value?.filter (· < base)

def numeral? (base : Nat) (text : List Char) : Option Nat :=
  if text.isEmpty then none
  else text.foldl (fun total c => do return (← total) * base + (← digit? base c)) (some 0)

def octet? (text : List Char) : Option Nat :=
  match text with
  | '0' :: _ :: _ => none
  | digits => (numeral? 10 digits).filter (· < 256)

def splitAt (separator : Char) : List Char → List (List Char)
  | [] => [[]]
  | c :: rest =>
    if c = separator then [] :: splitAt separator rest
    else match splitAt separator rest with
      | [] => [[c]]
      | part :: more => (c :: part) :: more

def v4? (text : List Char) : Option Ip :=
  match splitAt '.' text with
  | [a, b, c, d] => do return .v4 (← octet? a) (← octet? b) (← octet? c) (← octet? d)
  | _ => none

def numberPart? : List Char → Option Nat
  | '0' :: 'x' :: digits | '0' :: 'X' :: digits => numeral? 16 digits
  | '0' :: c :: digits => numeral? 8 (c :: digits)
  | digits => numeral? 10 digits

def ofWord (n : Nat) : Ip :=
  .v4 (n / 0x1000000 % 256) (n / 0x10000 % 256) (n / 0x100 % 256) (n % 256)

/-- Up to four numbers with dots between them. All but the last are bytes, and the
last one fills the bytes that are left. -/
def numbersAndDots? (text : List Char) : Option Ip := do
  let numbers ← (splitAt '.' text).mapM numberPart?
  let last ← numbers.getLast?
  let bytes := numbers.dropLast
  let room := Nat.pow 256 (4 - bytes.length)
  if bytes.length < 4 ∧ bytes.all (· < 256) ∧ last < room then
    return ofWord (bytes.foldl (· * 256 + ·) 0 * room + last)
  else none

def hexGroup? (text : List Char) : Option Nat :=
  if 4 < text.length then none else numeral? 16 text

/-- The groups of one side; an IPv4 address may stand for the last two. -/
def groups? : List (List Char) → Option (List Nat)
  | [] => some []
  | [last] =>
    match hexGroup? last with
    | some n => some [n]
    | none =>
      match v4? last with
      | some (.v4 a b c d) => some [a * 256 + b, c * 256 + d]
      | _ => none
  | first :: rest => do return (← hexGroup? first) :: (← groups? rest)

def parts (text : List Char) : List (List Char) :=
  if text.isEmpty then [] else splitAt ':' text

def splitDouble : List Char → Option (List Char × List Char)
  | ':' :: ':' :: rest => some ([], rest)
  | c :: rest => (splitDouble rest).map fun (head, tail) => (c :: head, tail)
  | [] => none

def v6? (text : List Char) : Option Ip :=
  match splitDouble text with
  | none => do
    let groups ← groups? (parts text)
    if groups.length = 8 then some (.v6 groups) else none
  | some (head, tail) => do
    let before ← groups? (parts head)
    let after ← groups? (parts tail)
    if before.length + after.length < 8 ∧ before.length = (parts head).length then
      some (.v6 (before ++ List.replicate (8 - before.length - after.length) 0 ++ after))
    else none

def isOnLink : Ip → Bool
  | .v6 (g :: _) => (0xfe80 ≤ g && g < 0xfec0) || (0xff00 ≤ g && g % 16 == 2)
  | _ => false

def interface? (interfaces : List String) (name : List Char) : Option Nat :=
  (interfaces.findIdx? fun known => known.toList == name).map (· + 1)

def scopedV6? (interfaces : List String) (text : List Char) : Option (Ip × Nat) :=
  match text.dropWhile (· != '%') with
  | [] => (v6? text).map fun ip => (ip, 0)
  | _ :: scope => do
    let ip ← v6? (text.takeWhile (· != '%'))
    let named := if ip.isOnLink then interface? interfaces scope else none
    let number ← named.or (numeral? 10 scope)
    if number < UInt32.size then some (ip, number) else none

/-! ## Writing -/

def zeroRun (groups : List Nat) : Nat := (groups.takeWhile (· == 0)).length

def longestZeros : Nat → List Nat → Nat × Nat
  | _, [] => (0, 0)
  | index, g :: rest =>
    let here := zeroRun (g :: rest)
    let later := longestZeros (index + 1) rest
    if 0 < here ∧ later.2 ≤ here then (index, here) else later

def hexText (groups : List Nat) : String :=
  ":".intercalate (groups.map fun g => String.ofList (Nat.toDigits 16 g))

def text : Ip → String
  | .v4 a b c d => s!"{a}.{b}.{c}.{d}"
  | .v6 [0, 0, 0, 0, 0, 0xffff, g, h] => s!"::ffff:{g / 256}.{g % 256}.{h / 256}.{h % 256}"
  | .v6 groups =>
    let (start, length) := longestZeros 0 groups
    if length < 2 then hexText groups
    else s!"{hexText (groups.take start)}::{hexText (groups.drop (start + length))}"

def isV4 : Ip → Bool
  | .v4 .. => true
  | .v6 _ => false

def unmapped : Ip → Ip
  | .v6 [0, 0, 0, 0, 0, 0xffff, g, h] => ofWord (g * 0x10000 + h)
  | ip => ip

def isGroup : Ip → Bool
  | .v4 a _ _ _ => 224 ≤ a && a < 240
  | .v6 groups => groups.head?.any (0xff00 ≤ ·)

def isBroadcast : Ip → Bool
  | .v4 a b c d => a == 0 || [a, b, c, d] == [255, 255, 255, 255]
  | .v6 _ => false

def isLoopback : Ip → Bool
  | .v4 a _ _ _ => a == 127
  | .v6 groups => groups == [0, 0, 0, 0, 0, 0, 0, 1]

def isUnspecified : Ip → Bool
  | .v4 a b c d => a == 0 && b == 0 && c == 0 && d == 0
  | .v6 groups => groups.all (· == 0)

end Ip

namespace SocketAddress

def splitLast (text : List Char) : Option (List Char × List Char) :=
  match text.reverse.dropWhile (· != ':') with
  | [] => none
  | _ :: host => some (host.reverse, (text.reverse.takeWhile (· != ':')).reverse)

def inBrackets? (host : List Char) : Option (List Char) :=
  match host, host.getLast? with
  | '[' :: rest, some ']' => some rest.dropLast
  | _, _ => none

/-- The host with its interface. Brackets make no address where the port has a sign,
and know interfaces by their numbers only. -/
def host? (interfaces : List String) (host port : List Char) : Option (Ip × Nat) :=
  match inBrackets? host with
  | some inner => if port.head? = some '+' then none else Ip.scopedV6? [] inner
  | none =>
    ((Ip.numbersAndDots? host).map fun ip => (ip, 0)).or (Ip.scopedV6? interfaces host)

def parse (interfaces : List String) (text : String) : Except AddressError SocketAddress :=
  match splitLast text.toList with
  | none => .error .noColon
  | some (host, port) =>
    match readNatural 65535 (String.ofList port) with
    | .error _ => .error .badPort
    | .ok number =>
      match host? interfaces host port with
      | some (ip, scope) => .ok ⟨ip, number, scope⟩
      | none => .error (.hostName (String.ofList host) number)

end SocketAddress

end GameRelay
