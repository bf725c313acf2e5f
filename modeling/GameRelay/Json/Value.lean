import GameRelay.Decimal.Binary64

/-!
# JSON values

An integer is kept exactly when it fits in a signed or an unsigned 64-bit word;
every other number is a binary floating-point number. The members of an object
stand in ascending order of their keys, each key once; `Ordered` says so, and
`insert` keeps it.
-/

set_option autoImplicit false

namespace GameRelay.Json

open GameRelay.Decimal

def Integral (i : Int) : Prop := -0x8000000000000000 ≤ i ∧ i < 0x10000000000000000

instance (i : Int) : Decidable (Integral i) := inferInstanceAs (Decidable (_ ∧ _))

inductive Number where
  | int (value : Int) (inRange : Integral value)
  | float (value : Binary64)
  deriving DecidableEq, Repr

inductive Value where
  | null
  | bool (value : Bool)
  | number (value : Number)
  | text (value : String)
  | list (items : List Value)
  | object (members : List (String × Value))
  deriving Inhabited

def Number.ofUInt64 (n : UInt64) : Number :=
  .int n.toNat (by have := n.toNat_lt; unfold Integral; omega)

def Number.same : Number → Number → Bool
  | .int a _, .int b _ => a == b
  | .float a, .float b => a.same b
  | _, _ => false

namespace Value

def word? : Value → Option UInt64
  | .number (.int (.ofNat n) _) => some (UInt64.ofNat n)
  | _ => none

mutual
/-- Equality of values; an integer differs from every floating-point number, and
the two zeros are equal. -/
def same : Value → Value → Bool
  | .null, .null => true
  | .bool a, .bool b => a == b
  | .number a, .number b => a.same b
  | .text a, .text b => a == b
  | .list as, .list bs => sameItems as bs
  | .object as, .object bs => sameMembers as bs
  | _, _ => false

def sameItems : List Value → List Value → Bool
  | [], [] => true
  | a :: as, b :: bs => same a b && sameItems as bs
  | _, _ => false

def sameMembers : List (String × Value) → List (String × Value) → Bool
  | [], [] => true
  | (k, a) :: as, (l, b) :: bs => k == l && same a b && sameMembers as bs
  | _, _ => false
end

/-- Puts a member in its place; an earlier value of the same key is lost. -/
def insert (key : String) (value : Value) :
    List (String × Value) → List (String × Value)
  | [] => [(key, value)]
  | (k, v) :: rest =>
    if key < k then (key, value) :: (k, v) :: rest
    else if k < key then (k, v) :: insert key value rest
    else (key, value) :: rest

def ofMembers (members : List (String × Value)) : Value :=
  .object (members.foldl (fun known member => insert member.1 member.2 known) [])

mutual
def Ordered : Value → Prop
  | .list items => OrderedItems items
  | .object members =>
    (members.map Prod.fst).Pairwise (· < ·) ∧ OrderedMembers members
  | _ => True

def OrderedItems : List Value → Prop
  | [] => True
  | v :: rest => Ordered v ∧ OrderedItems rest

def OrderedMembers : List (String × Value) → Prop
  | [] => True
  | (_, v) :: rest => Ordered v ∧ OrderedMembers rest
end

mutual
def FloatFree : Value → Prop
  | .number (.float _) => False
  | .list items => FloatFreeItems items
  | .object members => FloatFreeMembers members
  | _ => True

def FloatFreeItems : List Value → Prop
  | [] => True
  | v :: rest => FloatFree v ∧ FloatFreeItems rest

def FloatFreeMembers : List (String × Value) → Prop
  | [] => True
  | (_, v) :: rest => FloatFree v ∧ FloatFreeMembers rest
end

mutual
def depth : Value → Nat
  | .list items => depthItems items + 1
  | .object members => depthMembers members + 1
  | _ => 0

def depthItems : List Value → Nat
  | [] => 0
  | v :: rest => max (depth v) (depthItems rest)

def depthMembers : List (String × Value) → Nat
  | [] => 0
  | (_, v) :: rest => max (depth v) (depthMembers rest)
end

end Value

theorem Value.word?_ofUInt64 (n : UInt64) :
    (Value.number (Number.ofUInt64 n)).word? = some n := by
  simp [Value.word?, Number.ofUInt64]

end GameRelay.Json
