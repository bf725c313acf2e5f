import GameRelay.Json.Reader

/-!
# Records

A record is read from an object, by the names of its fields, or from a list, by
their order. A field may have a fallback, which stands in where the field is
absent. Members of other names are skipped. The same record can be read from a
text and from a value that was read before; only the wording of what is wrong
differs.
-/

set_option autoImplicit false

namespace GameRelay.Json

inductive Kind where
  | any
  | text
  | textOrNull
  deriving DecidableEq, Repr

def Kind.Carrier : Kind → Type
  | .any => Value
  | .text => String
  | .textOrNull => Option String

structure Field where
  name : String
  kind : Kind
  fallback : Option kind.Carrier

structure Schema where
  title : String
  fields : List Field

def Row : List Field → Type
  | [] => Unit
  | f :: fs => f.kind.Carrier × Row fs

def Slots : List Field → Type
  | [] => Unit
  | f :: fs => Option f.kind.Carrier × Slots fs

def Slots.empty : (fs : List Field) → Slots fs
  | [] => ()
  | _ :: fs => (none, Slots.empty fs)

/-- Fallbacks stand in for the absent fields. The first absent field without one
is an error. -/
def Slots.close : (fs : List Field) → Slots fs → Except Mismatch (Row fs)
  | [], _ => .ok ()
  | f :: fs, (slot, slots) =>
    match slot.or f.fallback with
    | some v => (Slots.close fs slots).map fun row => (v, row)
    | none => .error (.missingField f.name)

/-! ## From a text -/

def wrong {α : Type} (what : Mismatch) (rest : List Char) : Except Fault α :=
  .error (.here (.mismatch what) rest)

/-- What stands where another type was wanted: a scalar is read to its end, a
list or an object is left where it starts. -/
def readOther {α : Type} (wanted : Wanted) (s : List Char) : Except Fault α :=
  match s with
  | '[' :: _ => wrong (.wrongType .list wanted) s
  | '\x7b' :: _ => wrong (.wrongType .object wanted) s
  | s => do
    let (v, rest) ← readScalar s
    wrong (.wrongType (.ofValue v) wanted) rest

def readString (s : List Char) : Except Fault (String × List Char) :=
  match skipSpace s with
  | '"' :: rest => readText [] rest
  | s => readOther .text s

def readBoolean (s : List Char) : Except Fault (Bool × List Char) :=
  match skipSpace s with
  | 't' :: rest => (readLetters ['r', 'u', 'e'] rest).map fun r => (true, r)
  | 'f' :: rest => (readLetters ['a', 'l', 's', 'e'] rest).map fun r => (false, r)
  | s => readOther .boolean s

def readStringOrNull (s : List Char) : Except Fault (Option String × List Char) :=
  match skipSpace s with
  | 'n' :: rest => (readLetters ['u', 'l', 'l'] rest).map fun r => (none, r)
  | s => (readString s).map fun (t, r) => (some t, r)

def readKind (fuel room : Nat) : (k : Kind) → List Char → Except Fault (k.Carrier × List Char)
  | .any, s => readValue fuel room s
  | .text, s => readString s
  | .textOrNull, s => readStringOrNull s

/-- The unread text once the reader has tried to take a closing bracket. -/
def afterBracket (bracket : Char) (s : List Char) : List Char :=
  match skipSpace s with
  | [] => []
  | c :: rest => if c = bracket then rest else c :: rest

def fillSlot (fuel room : Nat) (key : String) :
    (fs : List Field) → Slots fs → List Char → Except Fault (Slots fs × List Char)
  | [], _, s => do
    let s ← readColon s
    let s ← skipValue fuel s
    return ((), s)
  | f :: fs, (slot, slots), s =>
    if f.name = key then
      match slot with
      | some _ => wrong (.duplicateField f.name) (afterBracket '\x7d' s)
      | none => do
        let s ← readColon s
        let (v, s) ← readKind fuel room f.kind s
        return ((some v, slots), s)
    else do
      let (slots, s) ← fillSlot fuel room key fs slots s
      return ((slot, slots), s)

def readSlots (fields : List Field) :
    Nat → Nat → Bool → Slots fields → List Char → Except Fault (Slots fields × List Char)
  | 0, _, _, _, s => .error (.peek .expectedValue s)
  | fuel + 1, room, first, slots, s => do
    match ← nextMember first s with
    | .close rest => return (slots, rest)
    | .entry rest =>
      let (key, rest) ← readText [] rest
      let (slots, rest) ← fillSlot fuel room key fields slots rest
      readSlots fields fuel room false slots rest

def closeList (s : List Char) : Except Fault (List Char) :=
  match skipSpace s with
  | [] => .error (.peek .endInList [])
  | ']' :: rest => .ok rest
  | ',' :: rest =>
    match skipSpace rest with
    | ']' :: more => .error (.peek .trailingComma (']' :: more))
    | more => .error (.peek .trailingCharacters more)
  | rest => .error (.peek .trailingCharacters rest)

def fallbacks (title : String) (all index : Nat) (rest : List Char) :
    (fs : List Field) → Except Fault (Row fs)
  | [] => .ok ()
  | f :: fs =>
    match f.fallback with
    | some v => (fallbacks title all (index + 1) rest fs).map fun row => (v, row)
    | none => wrong (.tooFew index title all) rest

def readRow (title : String) (all fuel room : Nat) :
    Nat → (fs : List Field) → List Char → Except Fault (Row fs × List Char)
  | _, [], s => (closeList s).map fun rest => ((), rest)
  | index, f :: fs, s => do
    match ← nextItem (index == 0) s with
    | .close rest =>
      let row ← fallbacks title all index rest (f :: fs)
      return (row, rest)
    | .entry rest =>
      let (v, rest) ← readKind fuel room f.kind rest
      let (row, rest) ← readRow title all fuel room (index + 1) fs rest
      return ((v, row), rest)

namespace Schema

def read (schema : Schema) (fuel : Nat) (s : List Char) :
    Except Fault (Row schema.fields × List Char) :=
  match skipSpace s with
  | '[' :: rest =>
    readRow schema.title schema.fields.length fuel (depthLimit - 1) 0 schema.fields rest
  | '\x7b' :: rest => do
    let (slots, rest) ←
      readSlots schema.fields fuel (depthLimit - 1) true (Slots.empty schema.fields) rest
    match slots.close with
    | .ok row => return (row, rest)
    | .error what => wrong what rest
  | s => readOther (.record schema.title) s

def parse (schema : Schema) (text : String) : Except ParseError (Row schema.fields) :=
  readWith schema.read text

end Schema

def parseBoolean (text : String) : Except ParseError Bool :=
  readWith (fun _ s => readBoolean s) text

/-! ## From a value -/

def Value.mismatch {α : Type} (wanted : Wanted) (v : Value) : Except Mismatch α :=
  .error (.wrongType (.ofValue v) wanted)

def Value.toText : Value → Except Mismatch String
  | .text s => .ok s
  | v => v.mismatch .text

def Value.toBoolean : Value → Except Mismatch Bool
  | .bool b => .ok b
  | v => v.mismatch .boolean

def Value.toWord : Value → Except Mismatch UInt64
  | .number (.int (.ofNat n) _) => .ok (UInt64.ofNat n)
  | .number (.int i _) => .error (.negative i)
  | v => v.mismatch .word

def Value.toKind : (k : Kind) → Value → Except Mismatch k.Carrier
  | .any, v => .ok v
  | .text, v => v.toText
  | .textOrNull, .null => .ok none
  | .textOrNull, v => v.toText.map some

def putSlot (key : String) (v : Value) :
    (fs : List Field) → Slots fs → Except Mismatch (Slots fs)
  | [], _ => .ok ()
  | f :: fs, (slot, slots) =>
    if f.name = key then
      match slot with
      | some _ => .error (.duplicateField f.name)
      | none => (v.toKind f.kind).map fun c => (some c, slots)
    else (putSlot key v fs slots).map fun slots => (slot, slots)

def putSlots (fields : List Field) :
    List (String × Value) → Slots fields → Except Mismatch (Slots fields)
  | [], slots => .ok slots
  | (key, v) :: rest, slots => do putSlots fields rest (← putSlot key v fields slots)

/-- The fields from the `index`-th on, one item each; `length` items there were in all. -/
def rowOfItems (title : String) (all length : Nat) :
    Nat → (fs : List Field) → List Value → Except Mismatch (Row fs)
  | _, [], [] => .ok ()
  | _, [], _ :: _ => .error (.tooMany length)
  | index, f :: fs, [] =>
    match f.fallback with
    | some v => (rowOfItems title all length (index + 1) fs []).map fun row => (v, row)
    | none => .error (.tooFew index title all)
  | index, f :: fs, item :: items => do
    let v ← item.toKind f.kind
    let row ← rowOfItems title all length (index + 1) fs items
    return (v, row)

def Schema.ofValue (schema : Schema) : Value → Except Mismatch (Row schema.fields)
  | .list items => rowOfItems schema.title schema.fields.length items.length 0 schema.fields items
  | .object members => do
    (← putSlots schema.fields members (Slots.empty schema.fields)).close
  | v => v.mismatch (.record schema.title)

end GameRelay.Json
