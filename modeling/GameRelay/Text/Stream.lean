import GameRelay.Text.Lines
import GameRelay.SystemError

/-!
# Reading a link line by line

Bytes arrive in pieces and are cut into lines as they arrive. The link may end,
which completes an unfinished last line, or break, which loses it. The lines
that arrived before are read first in both cases.
-/

set_option autoImplicit false

namespace GameRelay.Text

inductive Ending where
  | closed
  | broken (error : SystemError)
  deriving DecidableEq, Repr

structure Stream where
  splitter : Splitter := {}
  ready : List (List UInt8) := []
  ending : Option Ending := none
  deriving DecidableEq, Repr

inductive Reading where
  | nothing
  | line (bytes : List UInt8)
  | ended (why : Ending)
  deriving DecidableEq, Repr

namespace Stream

def arrive (s : Stream) (bytes : List UInt8) : Stream :=
  match s.ending with
  | some _ => s
  | none =>
    let (splitter, complete) := s.splitter.feed bytes
    { s with splitter, ready := s.ready ++ complete }

def finish (s : Stream) (why : Ending) : Stream :=
  match s.ending, why with
  | some _, _ => s
  | none, .closed =>
    { splitter := {}, ready := s.ready ++ s.splitter.finish, ending := some why }
  | none, .broken _ => { s with splitter := {}, ending := some why }

def read (s : Stream) : Reading × Stream :=
  match s.ready, s.ending with
  | line :: rest, _ => (.line line, { s with ready := rest })
  | [], some why => (.ended why, s)
  | [], none => (.nothing, s)

end Stream

inductive ReadError where
  | malformed (what : Malformed)
  | system (error : SystemError)
  deriving DecidableEq, Repr

def ReadError.message : ReadError → String
  | .malformed what => what.message
  | .system error => error.message

end GameRelay.Text
