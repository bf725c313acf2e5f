import GameRelay.Inbound.Consumer

/-!
# The status of the host

The names of the games that have a host connected, in ascending order and each
once. A notice that a game is connected adds its name, a notice that it closed
takes the name away.
-/

set_option autoImplicit false

namespace GameRelay.Host

open GameRelay.Inbound GameRelay.Json

structure Status where
  connectedGames : List String := []
  deriving DecidableEq, Repr

def insertName (name : String) : List String → List String
  | [] => [name]
  | n :: rest =>
    if name < n then name :: n :: rest
    else if n < name then n :: insertName name rest
    else n :: rest

namespace Status

def connect (s : Status) (name : String) : Status := ⟨insertName name s.connectedGames⟩

def close (s : Status) (name : String) : Status := ⟨s.connectedGames.filter (· != name)⟩

def toValue (s : Status) : Value :=
  .object [("connected_games", .list (s.connectedGames.map .text))]

def hear (s : Status) : Notice → Status
  | .connected name => s.connect name
  | .closed name => s.close name
  | .status => s

end Status

def consumer : Consumer Status where
  handle s notice :=
    (s.hear notice, .returned (match notice with | .status => s.toValue | _ => .null))

theorem mem_insertName (name m : String) (names : List String) :
    m ∈ insertName name names ↔ m = name ∨ m ∈ names := by
  induction names with
  | nil => simp [insertName]
  | cons n rest ih =>
    rw [insertName]
    split
    · simp
    · split
      · simp [ih, or_left_comm]
      · rename_i h1 h2
        have : name = n := String.le_antisymm (String.not_lt.1 h2) (String.not_lt.1 h1)
        simp [this]

end GameRelay.Host
