import GameRelay.Inbound.Listener

/-!
# What happens next on the inbound side

One schedule out of many: earlier connections come before later ones, and each
goes on until it has nothing left to read. Steps that have to wait for something
else are passed over: `may` tells which steps can be taken. Accepting is up to
others.
-/

set_option autoImplicit false

namespace GameRelay.Inbound

variable {σ : Type}

namespace Listener

def nextOn? (c : Nat) (s : Serving) : Option ListenerEvent :=
  match s.phase with
  | .ended => none
  | .reading =>
    match s.stream.read.1 with
    | .nothing => none
    | _ => some (.read c)
  | .calling _ _ => some (.handle c)
  | .replying _ => some (.write c)

def nextFrom? (may : ListenerEvent → Bool) : Nat → List Serving → Option ListenerEvent
  | _, [] => none
  | c, s :: rest => ((nextOn? c s).filter may).orElse fun () => nextFrom? may (c + 1) rest

def next? (may : ListenerEvent → Bool) (l : Listener σ) : Option ListenerEvent :=
  nextFrom? may 0 l.connections

/-- How many steps the connections can take by themselves at most: three for each
line that was read and not dealt with, for one more, and for the end. -/
def fuel (l : Listener σ) : Nat :=
  l.connections.foldl (fun steps s => steps + 3 * s.stream.ready.length + 6) 0

end Listener

def Door.nextCloser? (d : Door) : Nat → List Closer → Option DoorEvent
  | _, [] => none
  | k, closer :: rest =>
    match closer with
    | .started | .holding => some (.advance k)
    | .waiting => if d.isOpen then d.nextCloser? (k + 1) rest else some (.advance k)
    | _ => d.nextCloser? (k + 1) rest

def Door.next? (d : Door) : Option DoorEvent :=
  (d.nextCloser? 0 d.closers).or (if d.stopping && d.isOpen then some .stopped else none)

end GameRelay.Inbound
