import GameRelay.Json.Value
import GameRelay.Json.Printer
import GameRelay.Text.Quoted

/-!
# What can be wrong with a JSON text

A `Mismatch` is a well-formed value of the wrong shape; it has a wording of its
own, since it also arises where there is no text. A `Fault` is met while reading
a text, at a place given by what is left of the text.
-/

set_option autoImplicit false

namespace GameRelay.Json

open GameRelay.Text

inductive Seen where
  | null
  | bool (value : Bool)
  | number (value : Number)
  | text (value : String)
  | list
  | object
  deriving DecidableEq, Repr

inductive Wanted where
  | text
  | boolean
  | word
  | record (title : String)
  deriving DecidableEq, Repr

inductive Mismatch where
  | wrongType (seen : Seen) (wanted : Wanted)
  | negative (value : Int)
  | missingField (name : String)
  | duplicateField (name : String)
  /-- A list that ends before a field without fallback. -/
  | tooFew (length : Nat) (title : String) (fields : Nat)
  | tooMany (length : Nat)
  deriving DecidableEq, Repr

inductive Cause where
  | endInList
  | endInObject
  | endInText
  | endInValue
  | expectedColon
  | expectedListEnd
  | expectedObjectEnd
  | expectedLiteral
  | expectedValue
  | invalidEscape
  | invalidNumber
  | outOfRange
  | controlCharacter
  | keyNotText
  | loneSurrogate
  | unfinishedSurrogates
  | trailingComma
  | trailingCharacters
  | tooDeep
  | mismatch (what : Mismatch)
  deriving DecidableEq, Repr

/-- `ahead` bytes of `rest` belong to the part that was looked at. -/
structure Fault where
  cause : Cause
  rest : List Char
  ahead : Nat
  deriving DecidableEq, Repr

inductive Category where
  | ended
  | data
  | form
  deriving DecidableEq, Repr

def Seen.ofValue : Value → Seen
  | .null => .null
  | .bool b => .bool b
  | .number n => .number n
  | .text s => .text s
  | .list _ => .list
  | .object _ => .object

def Seen.message : Seen → String
  | .null => "null"
  | .bool b => s!"boolean `{b}`"
  | .number (.int i _) => s!"integer `{i}`"
  | .number (.float x) => s!"floating point `{String.ofList (floatText x)}`"
  | .text s => s!"string {quoted s}"
  | .list => "sequence"
  | .object => "map"

def Wanted.message : Wanted → String
  | .text => "a string"
  | .boolean => "a boolean"
  | .word => "u64"
  | .record title => s!"struct {title}"

def Mismatch.message : Mismatch → String
  | .wrongType seen wanted => s!"invalid type: {seen.message}, expected {wanted.message}"
  | .negative value => s!"invalid value: integer `{value}`, expected u64"
  | .missingField name => s!"missing field `{name}`"
  | .duplicateField name => s!"duplicate field `{name}`"
  | .tooFew length title fields =>
    s!"invalid length {length}, expected struct {title} with {fields} elements"
  | .tooMany length => s!"invalid length {length}, expected fewer elements in array"

def Cause.message : Cause → String
  | .endInList => "EOF while parsing a list"
  | .endInObject => "EOF while parsing an object"
  | .endInText => "EOF while parsing a string"
  | .endInValue => "EOF while parsing a value"
  | .expectedColon => "expected `:`"
  | .expectedListEnd => "expected `,` or `]`"
  | .expectedObjectEnd => "expected `,` or `\x7d`"
  | .expectedLiteral => "expected ident"
  | .expectedValue => "expected value"
  | .invalidEscape => "invalid escape"
  | .invalidNumber => "invalid number"
  | .outOfRange => "number out of range"
  | .controlCharacter =>
    "control character (\\u0000-\\u001F) found while parsing a string"
  | .keyNotText => "key must be a string"
  | .loneSurrogate => "lone leading surrogate in hex escape"
  | .unfinishedSurrogates => "unexpected end of hex escape"
  | .trailingComma => "trailing comma"
  | .trailingCharacters => "trailing characters"
  | .tooDeep => "recursion limit exceeded"
  | .mismatch what => what.message

def Cause.category : Cause → Category
  | .endInList | .endInObject | .endInText | .endInValue => .ended
  | .mismatch _ => .data
  | _ => .form

namespace Fault

def peek (cause : Cause) : List Char → Fault
  | [] => ⟨cause, [], 0⟩
  | c :: rest => ⟨cause, c :: rest, 1⟩

def here (cause : Cause) (rest : List Char) : Fault := ⟨cause, rest, 0⟩

end Fault

/-- A place in a text: lines count from one, columns count bytes. -/
structure Position where
  line : Nat
  column : Nat
  deriving DecidableEq, Repr

def Position.after (bytes : List UInt8) : Position :=
  bytes.foldl (fun p byte => if byte = 10 then ⟨p.line + 1, 0⟩ else ⟨p.line, p.column + 1⟩) ⟨1, 0⟩

structure ParseError where
  cause : Cause
  position : Position
  deriving DecidableEq, Repr

def ParseError.message (e : ParseError) : String :=
  s!"{e.cause.message} at line {e.position.line} column {e.position.column}"

def byteCount (text : List Char) : Nat := text.foldl (fun n c => n + c.utf8Size) 0

def Fault.locate (text : String) (fault : Fault) : ParseError :=
  let bytes := text.toUTF8.toList
  ⟨fault.cause,
    Position.after (bytes.take (bytes.length - byteCount fault.rest + fault.ahead))⟩

end GameRelay.Json
