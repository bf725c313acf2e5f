import GameRelay.Text.Quoted

/-!
# Text for a terminal

A text that is shown as it is may steer the terminal: controls move the cursor,
and a sequence after an escape changes colours, modes or the window's title.
What is left of a text once its controls and sequences are taken out keeps its
white space. A sequence that is never finished reaches to the end. Where nothing
is to be lost, the controls that start or make up sequences are written by their
numbers instead.
-/

set_option autoImplicit false

namespace GameRelay.Text

inductive Mode where
  | ground
  | escape
  /-- Characters that select a set stand between the escape and its end. -/
  | selection
  /-- The parameters of a control sequence. -/
  | control
  /-- The start of a device's string, its parameters, and what selects its meaning. -/
  | device
  | deviceParameters
  | deviceSelection
  | string
  /-- A string that a bell ends as well. -/
  | title
  deriving DecidableEq, Repr

namespace Mode

def isLayout (c : Char) : Bool := c == '\t' || c == '\n' || c == '\x0c' || c == '\r'

def isWithin (low high : Nat) (c : Char) : Bool := low ≤ c.toNat && c.toNat ≤ high

/-- Whether a character is shown. White space breaks off a sequence, but no string. -/
def shows : Mode → Char → Bool
  | .ground, c => isLayout c || isWithin 0x20 0x7e c || 0x7f < c.toNat
  | .escape, c | .selection, c | .control, c => isLayout c
  | _, _ => false

/-- Whether the byte that terminates a string is among the bytes of a character. -/
def terminates (c : Char) : Bool := (String.singleton c).toUTF8.toList.contains 0x9c

def next (m : Mode) (c : Char) : Mode :=
  if c = '\x18' ∨ c = '\x1a' then .ground
  else if c = '\x1b' then .escape
  else if m.shows c then .ground
  else match m with
    | .ground => .ground
    | .escape =>
      if isWithin 0x20 0x2f c then .selection
      else if c = '[' then .control
      else if c = ']' then .title
      else if c = 'P' then .device
      else if c = 'X' ∨ c = '^' ∨ c = '_' then .string
      else if isWithin 0x30 0x7e c then .ground
      else .escape
    | .selection => if isWithin 0x30 0x7e c then .ground else .selection
    | .control => if isWithin 0x40 0x7e c then .ground else .control
    | .device =>
      if isWithin 0x20 0x2f c then .deviceSelection
      else if isWithin 0x30 0x3f c then .deviceParameters
      else if isWithin 0x40 0x7e c then .string
      else .device
    | .deviceParameters =>
      if isWithin 0x20 0x2f c then .deviceSelection
      else if isWithin 0x3c 0x7e c then .string
      else .deviceParameters
    | .deviceSelection => if isWithin 0x30 0x7e c then .string else .deviceSelection
    | .string => if terminates c then .ground else .string
    | .title => if c = '\x07' then .ground else .title

end Mode

def plainFrom : Mode → List Char → List Char
  | _, [] => []
  | m, c :: rest => if m.shows c then c :: plainFrom (m.next c) rest else plainFrom (m.next c) rest

def plain (text : String) : String := String.ofList (plainFrom .ground text.toList)

def spelledChar (c : Char) : List Char :=
  if c = '\x07' ∨ c = '\x08' ∨ c = '\x0c' ∨ c = '\x1b' ∨ c = '\x7f' then
    ['\\', 'x', Nat.digitChar (c.toNat / 16), Nat.digitChar (c.toNat % 16)]
  else if 0x80 ≤ c.toNat ∧ c.toNat ≤ 0x9f then codePoint c
  else [c]

def spelled (text : String) : String := String.ofList (text.toList.flatMap spelledChar)

end GameRelay.Text
