import GameRelay.Json.Record

/-!
# The identity of a hosted game

A name, and the password that protects the host position. The password matters
only when a game is created; everywhere else it may be absent, which is the same
as empty.
-/

set_option autoImplicit false

namespace GameRelay.Frame

open GameRelay.Json

structure Identity where
  name : String
  password : String
  deriving DecidableEq, Repr

namespace Identity

def named (name : String) : Identity := ⟨name, ""⟩

def schema : Schema where
  title := "GameIdentity"
  fields := [⟨"Name", .text, none⟩, ⟨"Password", .text, some ""⟩]

def ofRow : Row schema.fields → Identity
  | (name, password, ()) => ⟨name, password⟩

def parse (text : String) : Except ParseError Identity := (schema.parse text).map ofRow

def ofValue (v : Value) : Except Mismatch Identity := (schema.ofValue v).map ofRow

def toValue (g : Identity) : Value :=
  .object [("Name", .text g.name), ("Password", .text g.password)]

def print (g : Identity) : String := g.toValue.print

end Identity

end GameRelay.Frame
