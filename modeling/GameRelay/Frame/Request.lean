import GameRelay.Json.Record

/-!
# Request frames

One request is one line: the method, its parameters and an id that the answer
repeats. A call of ours puts its single argument into a list; a request that
comes in may also carry the argument bare.
-/

set_option autoImplicit false

namespace GameRelay.Frame

open GameRelay.Json

structure Request where
  method : String
  params : Value
  id : Value

/-- What a caller wants to send as the argument. A map whose keys are no texts
has no JSON form. -/
inductive Argument where
  | value (v : Value)
  | unencodable

namespace Request

def schema : Schema where
  title := "RpcRequest"
  fields := [⟨"method", .text, none⟩, ⟨"params", .any, some Value.null⟩, ⟨"id", .any, none⟩]

def ofRow : Row schema.fields → Request
  | (method, params, id, ()) => ⟨method, params, id⟩

def parse (text : String) : Except ParseError Request := (schema.parse text).map ofRow

def call (method : String) (argument : Value) (id : UInt64) : Request :=
  ⟨method, .list [argument], .number (.ofUInt64 id)⟩

def argument (r : Request) : Value :=
  match r.params with
  | .list [] => .null
  | .list (first :: _) => first
  | bare => bare

def chars (r : Request) : List Char :=
  '\x7b' :: Value.memberChars
    [("method", .text r.method), ("params", r.params), ("id", r.id)] ++ ['\x7d']

def line (r : Request) : String := String.ofList (r.chars ++ ['\n'])

end Request

def Argument.callLine? (a : Argument) (method : String) (id : UInt64) : Option String :=
  match a with
  | .value v => some (Request.call method v id).line
  | .unencodable => none

end GameRelay.Frame
