import GameRelay.Json.Record

/-!
# Response frames

One response is one line: the id of the request, and either a result or the text
of an error. A response that carries an error is a failure whatever its result.
-/

set_option autoImplicit false

namespace GameRelay.Frame

open GameRelay.Json

structure Response where
  id : Value
  result : Value
  error : Option String

namespace Response

def schema : Schema where
  title := "RpcResponse"
  fields := [⟨"id", .any, none⟩, ⟨"result", .any, some Value.null⟩,
    ⟨"error", .textOrNull, some (none : Option String)⟩]

def ofRow : Row schema.fields → Response
  | (id, result, error, ()) => ⟨id, result, error⟩

def parse (text : String) : Except ParseError Response := (schema.parse text).map ofRow

def ok (id result : Value) : Response := ⟨id, result, none⟩

def failed (id : Value) (message : String) : Response := ⟨id, .null, some message⟩

def callId? (r : Response) : Option UInt64 := r.id.word?

def errorValue (r : Response) : Value :=
  match r.error with
  | some message => .text message
  | none => .null

def chars (r : Response) : List Char :=
  '\x7b' :: Value.memberChars
    [("id", r.id), ("result", r.result), ("error", r.errorValue)] ++ ['\x7d']

/-- The frame as it goes over the link, with its newline. Printing is total: no value fails to be
printed, so the frame that would stand for one, "serialization failed", is never sent. -/
def line (r : Response) : String := String.ofList (r.chars ++ ['\n'])

end Response

end GameRelay.Frame
