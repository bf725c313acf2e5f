/-!
# Lines of a byte stream

A line is the bytes up to and including a newline; a last piece without one is
a line too. `lines` splits a whole stream, `Splitter` takes the same bytes in
pieces. A line is text when it is well-formed UTF-8; otherwise `Malformed` says
where its first ill-formed sequence starts.
-/

set_option autoImplicit false

namespace GameRelay.Text

def newline : UInt8 := 10

def lines : List UInt8 → List (List UInt8)
  | [] => []
  | byte :: rest =>
    if byte = newline then [byte] :: lines rest
    else match lines rest with
      | [] => [[byte]]
      | line :: more => (byte :: line) :: more

theorem lines_flatten (bytes : List UInt8) : (lines bytes).flatten = bytes := by
  induction bytes with
  | nil => rfl
  | cons byte rest ih =>
    rw [lines]
    split
    · simp [ih]
    · split <;> rename_i h <;> rw [h] at ih <;> simp_all

structure Splitter where
  partialLine : List UInt8 := []
  deriving DecidableEq, Repr

namespace Splitter

def push (s : Splitter) (byte : UInt8) : Splitter × Option (List UInt8) :=
  if byte = newline then (⟨[]⟩, some (s.partialLine ++ [byte]))
  else (⟨s.partialLine ++ [byte]⟩, none)

def feed : Splitter → List UInt8 → Splitter × List (List UInt8)
  | s, [] => (s, [])
  | s, byte :: rest =>
    match s.push byte with
    | (next, none) => feed next rest
    | (next, some line) =>
      let (last, more) := feed next rest
      (last, line :: more)

def finish (s : Splitter) : List (List UInt8) :=
  if s.partialLine = [] then [] else [s.partialLine]

theorem feed_append (s : Splitter) (bytes more : List UInt8) :
    s.feed (bytes ++ more) =
      (((s.feed bytes).1.feed more).1, (s.feed bytes).2 ++ ((s.feed bytes).1.feed more).2) := by
  induction bytes generalizing s with
  | nil => rfl
  | cons byte rest ih =>
    rw [List.cons_append, feed, feed]
    split <;> simp [ih]

end Splitter

/-- The first ill-formed sequence of a line: its offset, and the length of its
well-formed beginning, at least one byte. No length means that the stream ended
inside a character. -/
structure Malformed where
  offset : Nat
  length : Option Nat
  deriving DecidableEq, Repr

def Malformed.message (m : Malformed) : String :=
  match m.length with
  | some n => s!"invalid utf-8 sequence of {n} bytes from index {m.offset}"
  | none => s!"incomplete utf-8 byte sequence from index {m.offset}"

/-- How many bytes follow a first byte, and the range of the one right after it. -/
def leadByte (byte : UInt8) : Option (Nat × UInt8 × UInt8) :=
  if byte < 0x80 then some (0, 0, 0)
  else if byte < 0xc2 then none
  else if byte < 0xe0 then some (1, 0x80, 0xbf)
  else if byte = 0xe0 then some (2, 0xa0, 0xbf)
  else if byte = 0xed then some (2, 0x80, 0x9f)
  else if byte < 0xf0 then some (2, 0x80, 0xbf)
  else if byte = 0xf0 then some (3, 0x90, 0xbf)
  else if byte < 0xf4 then some (3, 0x80, 0xbf)
  else if byte = 0xf4 then some (3, 0x80, 0x8f)
  else none

inductive Sequence where
  | complete (rest : List UInt8)
  | broken (length : Nat)
  | cut

def sequence : Nat → UInt8 → UInt8 → Nat → List UInt8 → Sequence
  | 0, _, _, _, rest => .complete rest
  | _ + 1, _, _, _, [] => .cut
  | more + 1, low, high, taken, byte :: rest =>
    if low ≤ byte && byte ≤ high then sequence more 0x80 0xbf (taken + 1) rest
    else .broken taken

def firstMalformed : Nat → Nat → List UInt8 → Malformed
  | 0, offset, _ => ⟨offset, none⟩
  | _ + 1, offset, [] => ⟨offset, none⟩
  | bound + 1, offset, byte :: rest =>
    match leadByte byte with
    | none => ⟨offset, some 1⟩
    | some (more, low, high) =>
      match sequence more low high 1 rest with
      | .complete left => firstMalformed bound (offset + more + 1) left
      | .broken length => ⟨offset, some length⟩
      | .cut => ⟨offset, none⟩

def decodeLine (bytes : List UInt8) : Except Malformed String :=
  match String.fromUTF8? ⟨bytes.toArray⟩ with
  | some text => .ok text
  | none => .error (firstMalformed bytes.length 0 bytes)

def encode (text : String) : List UInt8 := text.toUTF8.toList

end GameRelay.Text
