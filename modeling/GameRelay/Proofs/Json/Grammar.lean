import GameRelay.Proofs.Json.Float

/-!
# JSON texts

Which texts are JSON, and which value each of them stands for, by the grammar
alone. The halves of a surrogate pair stand next to each other, a number is in
range, and lists and objects nest only as deep as there is room.
-/

set_option autoImplicit false

namespace GameRelay.Json

def Blank (s : List Char) : Prop := ∀ c ∈ s, isSpace c = true

/-! ## Texts -/

inductive Spells : List Char → List Char → Prop where
  | nil : Spells [] []
  | plain {c : Char} {s t : List Char} : c ≠ '"' → c ≠ '\\' → ¬ c.toNat < 0x20 → Spells s t →
      Spells (c :: s) (c :: t)
  | short {letter c : Char} {s t : List Char} : shortEscape? letter = some c → Spells s t →
      Spells ('\\' :: letter :: s) (c :: t)
  | unit {a b c d : Char} {n : Nat} {s t : List Char} : hexFour? a b c d = some n →
      isLeading n = false → isTrailing n = false → Spells s t →
      Spells ('\\' :: 'u' :: a :: b :: c :: d :: s) (Char.ofNat n :: t)
  | pair {a b c d a' b' c' d' : Char} {n m : Nat} {s t : List Char} :
      hexFour? a b c d = some n → isLeading n = true →
      hexFour? a' b' c' d' = some m → isTrailing m = true → Spells s t →
      Spells ('\\' :: 'u' :: a :: b :: c :: d :: '\\' :: 'u' :: a' :: b' :: c' :: d' :: s)
        (joinSurrogates n m :: t)

/-! ## Numbers -/

inductive WholeText : List Char → Prop where
  | zero : WholeText ['0']
  | digits {c : Char} {s : List Char} : c ≠ '0' → DigitText (c :: s) → WholeText (c :: s)

inductive PowerText : List Char → Prop where
  | absent : PowerText []
  | present {mark : Char} {sign digits : List Char} : isExponentMark mark = true →
      sign = [] ∨ sign = ['+'] ∨ sign = ['-'] → DigitText digits →
      PowerText (mark :: (sign ++ digits))

inductive NumberText : List Char → Prop where
  | of {sign whole fraction power : List Char} : sign = [] ∨ sign = ['-'] → WholeText whole →
      FractionText fraction → PowerText power →
      NumberText (sign ++ (whole ++ (fraction ++ power)))

/-! ## Values -/

inductive KeyText : List Char → String → Prop where
  | of {before s gap after t : List Char} : Blank before → Spells s t → Blank gap → Blank after →
      KeyText (before ++ '"' :: (s ++ '"' :: (gap ++ ':' :: after))) (String.ofList t)

inductive Part where
  | value (v : Value)
  | items (vs : List Value)
  | members (ms : List (String × Value))

/-- The piece of text stands for the part; `room` is how many levels it may open, plus
one. A key may occur twice in an object, and its last value counts. -/
inductive Denotes : Nat → List Char → Part → Prop where
  | null {room : Nat} : Denotes room ['n', 'u', 'l', 'l'] (.value .null)
  | yes {room : Nat} : Denotes room ['t', 'r', 'u', 'e'] (.value (.bool true))
  | no {room : Nat} : Denotes room ['f', 'a', 'l', 's', 'e'] (.value (.bool false))
  | number {room : Nat} {s : List Char} {n : Number} : NumberText s → readNumber s = .ok (n, []) →
      Denotes room s (.value (.number n))
  | text {room : Nat} {s t : List Char} : Spells s t →
      Denotes room ('"' :: (s ++ ['"'])) (.value (.text (String.ofList t)))
  | noItems {room : Nat} {s : List Char} : 1 < room → Blank s →
      Denotes room ('[' :: (s ++ [']'])) (.value (.list []))
  | list {room : Nat} {s : List Char} {vs : List Value} : 1 < room →
      Denotes (room - 1) s (.items vs) → Denotes room ('[' :: (s ++ [']'])) (.value (.list vs))
  | noMembers {room : Nat} {s : List Char} : 1 < room → Blank s →
      Denotes room ('\x7b' :: (s ++ ['\x7d'])) (.value (.object []))
  | object {room : Nat} {s : List Char} {ms : List (String × Value)} : 1 < room →
      Denotes (room - 1) s (.members ms) →
      Denotes room ('\x7b' :: (s ++ ['\x7d'])) (.value (.ofMembers ms))
  | lastItem {room : Nat} {before s after : List Char} {v : Value} : Blank before →
      Denotes room s (.value v) → Blank after → Denotes room (before ++ (s ++ after)) (.items [v])
  | moreItems {room : Nat} {before s after rest : List Char} {v : Value} {vs : List Value} :
      Blank before → Denotes room s (.value v) → Blank after → Denotes room rest (.items vs) →
      Denotes room (before ++ (s ++ (after ++ ',' :: rest))) (.items (v :: vs))
  | lastMember {room : Nat} {k s after : List Char} {key : String} {v : Value} : KeyText k key →
      Denotes room s (.value v) → Blank after →
      Denotes room (k ++ (s ++ after)) (.members [(key, v)])
  | moreMembers {room : Nat} {k s after rest : List Char} {key : String} {v : Value}
      {ms : List (String × Value)} : KeyText k key → Denotes room s (.value v) → Blank after →
      Denotes room rest (.members ms) →
      Denotes room (k ++ (s ++ (after ++ ',' :: rest))) (.members ((key, v) :: ms))

inductive Members : List Char → List (String × Value) → Prop where
  | empty {s : List Char} : Blank s → Members s []
  | listed {s : List Char} {ms : List (String × Value)} :
      Denotes (depthLimit - 1) s (.members ms) → Members s ms

/-- The text is one object with these members, in the order of the text and with every
repetition; their values nest within the limit. -/
inductive ObjectText (text : String) (ms : List (String × Value)) : Prop where
  | of (before inside after : List Char) :
      text.toList = before ++ '\x7b' :: (inside ++ '\x7d' :: after) →
      Blank before → Members inside ms → Blank after → ObjectText text ms

end GameRelay.Json
