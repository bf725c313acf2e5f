import GameRelay.Json.Scan

/-!
# Reading JSON values

A value is read whole, or skipped. Reading refuses nesting beyond a limit;
skipping has none. Every character accounts for at most two steps, so the fuel
that `readWith` takes from the length of the text never runs out before the text
does.
-/

set_option autoImplicit false

namespace GameRelay.Json

/-- A list or an object this deep is refused; the outermost one is at depth 1. -/
def depthLimit : Nat := 128

inductive Turn where
  | close (rest : List Char)
  | entry (rest : List Char)

def nextItem (first : Bool) (s : List Char) : Except Fault Turn :=
  match skipSpace s with
  | [] => .error (.peek .endInList [])
  | ']' :: rest => .ok (.close rest)
  | c :: rest =>
    if first then .ok (.entry (c :: rest))
    else if c = ',' then
      match skipSpace rest with
      | [] => .error (.peek .endInValue [])
      | ']' :: more => .error (.peek .trailingComma (']' :: more))
      | more => .ok (.entry more)
    else .error (.peek .expectedListEnd (c :: rest))

def nextMember (first : Bool) (s : List Char) : Except Fault Turn :=
  match skipSpace s with
  | [] => .error (.peek .endInObject [])
  | '\x7d' :: rest => .ok (.close rest)
  | c :: rest =>
    if first then
      if c = '"' then .ok (.entry rest) else .error (.peek .keyNotText (c :: rest))
    else if c = ',' then
      match skipSpace rest with
      | [] => .error (.peek .endInValue [])
      | '"' :: more => .ok (.entry more)
      | '\x7d' :: more => .error (.peek .trailingComma ('\x7d' :: more))
      | more => .error (.peek .keyNotText more)
    else .error (.peek .expectedObjectEnd (c :: rest))

def readColon (s : List Char) : Except Fault (List Char) :=
  match skipSpace s with
  | [] => .error (.peek .endInObject [])
  | ':' :: rest => .ok rest
  | rest => .error (.peek .expectedColon rest)

def readScalar (s : List Char) : Read Value :=
  match s with
  | [] => .error (.peek .endInValue [])
  | 'n' :: rest => (readLetters ['u', 'l', 'l'] rest).map fun r => (.null, r)
  | 't' :: rest => (readLetters ['r', 'u', 'e'] rest).map fun r => (.bool true, r)
  | 'f' :: rest => (readLetters ['a', 'l', 's', 'e'] rest).map fun r => (.bool false, r)
  | '"' :: rest => (readText [] rest).map fun (t, r) => (.text t, r)
  | c :: _ =>
    if c = '-' || isDigit c then (readNumber s).map fun (n, r) => (.number n, r)
    else .error (.peek .expectedValue s)

def skipScalar (s : List Char) : Except Fault (List Char) :=
  match s with
  | [] => .error (.peek .endInValue [])
  | 'n' :: rest => readLetters ['u', 'l', 'l'] rest
  | 't' :: rest => readLetters ['r', 'u', 'e'] rest
  | 'f' :: rest => readLetters ['a', 'l', 's', 'e'] rest
  | '"' :: rest => skipText rest
  | c :: _ =>
    if c = '-' || isDigit c then skipNumber s else .error (.peek .expectedValue s)

mutual
/-- The next value; `room` is how many levels may still be opened, plus one. -/
def readValue (fuel room : Nat) (s : List Char) : Except Fault (Value × List Char) :=
  match fuel with
  | 0 => .error (.peek .expectedValue s)
  | fuel + 1 =>
    match skipSpace s with
    | '[' :: rest =>
      if room ≤ 1 then .error (.peek .tooDeep ('[' :: rest))
      else (readItems fuel (room - 1) true rest).map fun (items, r) => (.list items, r)
    | '\x7b' :: rest =>
      if room ≤ 1 then .error (.peek .tooDeep ('\x7b' :: rest))
      else (readMembers fuel (room - 1) true rest).map fun (ms, r) => (Value.ofMembers ms, r)
    | s => readScalar s

def readItems (fuel room : Nat) (first : Bool) (s : List Char) :
    Except Fault (List Value × List Char) :=
  match fuel with
  | 0 => .error (.peek .expectedValue s)
  | fuel + 1 => do
    match ← nextItem first s with
    | .close rest => return ([], rest)
    | .entry rest =>
      let (v, rest) ← readValue fuel room rest
      let (more, rest) ← readItems fuel room false rest
      return (v :: more, rest)

def readMembers (fuel room : Nat) (first : Bool) (s : List Char) :
    Except Fault (List (String × Value) × List Char) :=
  match fuel with
  | 0 => .error (.peek .expectedValue s)
  | fuel + 1 => do
    match ← nextMember first s with
    | .close rest => return ([], rest)
    | .entry rest =>
      let (key, rest) ← readText [] rest
      let rest ← readColon rest
      let (v, rest) ← readValue fuel room rest
      let (more, rest) ← readMembers fuel room false rest
      return ((key, v) :: more, rest)
end

def skipToItem (first : Bool) (s : List Char) : Except Fault Turn :=
  match skipSpace s with
  | [] => .error (.peek .endInList [])
  | ']' :: rest => .ok (.close rest)
  | c :: rest =>
    if first then .ok (.entry (c :: rest))
    else if c = ',' then .ok (.entry rest)
    else .error (.peek .expectedListEnd (c :: rest))

def skipToMember (first : Bool) (s : List Char) : Except Fault Turn :=
  let key (s : List Char) : Except Fault Turn :=
    match skipSpace s with
    | [] => .error (.peek .endInObject [])
    | '"' :: rest => .ok (.entry rest)
    | rest => .error (.peek .keyNotText rest)
  match skipSpace s with
  | [] => .error (.peek .endInObject [])
  | '\x7d' :: rest => .ok (.close rest)
  | c :: rest =>
    if first then key (c :: rest)
    else if c = ',' then key rest
    else .error (.peek .expectedObjectEnd (c :: rest))

mutual
def skipValue (fuel : Nat) (s : List Char) : Except Fault (List Char) :=
  match fuel with
  | 0 => .error (.peek .expectedValue s)
  | fuel + 1 =>
    match skipSpace s with
    | '[' :: rest => skipItems fuel true rest
    | '\x7b' :: rest => skipMembers fuel true rest
    | s => skipScalar s

def skipItems (fuel : Nat) (first : Bool) (s : List Char) : Except Fault (List Char) :=
  match fuel with
  | 0 => .error (.peek .expectedValue s)
  | fuel + 1 => do
    match ← skipToItem first s with
    | .close rest => return rest
    | .entry rest =>
      let rest ← skipValue fuel rest
      skipItems fuel false rest

def skipMembers (fuel : Nat) (first : Bool) (s : List Char) : Except Fault (List Char) :=
  match fuel with
  | 0 => .error (.peek .expectedValue s)
  | fuel + 1 => do
    match ← skipToMember first s with
    | .close rest => return rest
    | .entry rest =>
      let rest ← skipText rest
      let rest ← readColon rest
      let rest ← skipValue fuel rest
      skipMembers fuel false rest
end

def readEnd (s : List Char) : Except Fault Unit :=
  match skipSpace s with
  | [] => .ok ()
  | rest => .error (.peek .trailingCharacters rest)

def readWith {α : Type} (read : Nat → List Char → Read α) (text : String) :
    Except ParseError α :=
  let s := text.toList
  let outcome : Except Fault α := do
    let (a, rest) ← read (2 * s.length + 1) s
    readEnd rest
    return a
  outcome.mapError (·.locate text)

def parse (text : String) : Except ParseError Value :=
  readWith (fun fuel s => readValue fuel depthLimit s) text

end GameRelay.Json
