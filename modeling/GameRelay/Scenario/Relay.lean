import GameRelay.Frame.Request
import GameRelay.Text.Lines

/-!
# A relay that follows a script

The relay takes in connections while it listens, for a given number of them at
most. Every request it receives, on whatever connection, gets the next reaction
of the script, and a standing reaction once the script is used up.
-/

set_option autoImplicit false

namespace GameRelay.Scenario

open GameRelay.Frame GameRelay.Json GameRelay.Text

inductive Piece where
  | bytes (bytes : List UInt8)
  | requestId
  deriving DecidableEq, Repr

inductive Action where
  | send (pieces : List Piece)
  | hangup
  | abort
  deriving DecidableEq, Repr

abbrev Reaction := List Action

def Piece.size : Piece → Nat
  | .bytes sent => sent.length
  | .requestId => 1

def Action.size : Action → Nat
  | .send pieces => pieces.foldl (fun size piece => size + piece.size) 1
  | .hangup | .abort => 1

def Reaction.size (reaction : Reaction) : Nat :=
  reaction.foldl (fun size action => size + action.size) 1

def acknowledge : Reaction :=
  [.send [.bytes (encode "\x7b\"id\":"), .requestId,
    .bytes (encode ",\"result\":true,\"error\":null\x7d\n")]]

structure Relay where
  script : List Reaction := []
  standing : Reaction := acknowledge
  listening : Bool := true
  limit : Option Nat := none
  sides : List Bool := []
  requests : List (Nat × String) := []

namespace Relay

def accepted (r : Relay) : Nat := r.sides.length

def openSides (r : Relay) : Nat := (r.sides.filter id).length

def isOpen (r : Relay) (side : Nat) : Bool := (r.sides[side]?).getD false

def accept (r : Relay) : Relay :=
  let sides := r.sides ++ [true]
  { r with
    sides
    listening := r.listening && (match r.limit with | some n => sides.length < n | none => true) }

def closeSide (r : Relay) (side : Nat) : Relay := { r with sides := r.sides.set side false }

def newestOpen? (r : Relay) : Option Nat :=
  ((r.sides.zipIdx).filter fun p => p.1).getLast?.map Prod.snd

/-- The bytes of a reply to a request line; a line that is no request has no id to repeat. -/
def fill (pieces : List Piece) (line : String) : List UInt8 :=
  let id := match Request.parse line with | .ok request => request.id.print | .error _ => "null"
  pieces.flatMap fun piece =>
    match piece with
    | .bytes bytes => bytes
    | .requestId => encode id

def receive (r : Relay) (side : Nat) (line : String) : Relay × Reaction :=
  let r := { r with requests := r.requests ++ [(side, line)] }
  match r.script with
  | next :: rest => ({ r with script := rest }, next)
  | [] => (r, r.standing)

end Relay

end GameRelay.Scenario
