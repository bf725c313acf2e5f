import GameRelay.Outbound.Caller

/-!
# What happens next on the outbound side

One schedule out of many: calls go on first, then queued lines are written, then
what arrived is read; tasks come before links, and earlier ones before later
ones. Steps that have to wait for something else are passed over: `may` tells
which steps can be taken. Only a dial has to be ended by others.
-/

set_option autoImplicit false

namespace GameRelay.Outbound

def Call.next? (call : Call) : Option CallStep :=
  match call.stage, call.mailbox with
  | .waiting, .empty => none
  | stage, _ => stage.next?

namespace Link

def nextCall? : Nat → List Call → Option LinkEvent
  | _, [] => none
  | k, call :: rest =>
    match call.next? with
    | some step => some (.call k step)
    | none => nextCall? (k + 1) rest

def nextOfWriter? (l : Link) : Option TransportEvent :=
  match l.writer, l.unwritten with
  | .running, _ :: _ => some (.write l.unwritten.length)
  | .failed, _ => some .closeQueue
  | _, _ => none

def nextOfReader? (l : Link) : Option TransportEvent :=
  match l.reader with
  | .handing _ _ => some .hand
  | .ended => none
  | .idle =>
    match l.incoming.read.1 with
    | .nothing => none
    | _ => some .read

def nextTransport? (may : TransportEvent → Bool) (l : Link) : Option TransportEvent :=
  (l.nextOfWriter?.filter may).or (l.nextOfReader?.filter may)

def next? (l : Link) : Option LinkEvent :=
  (nextCall? 0 l.calls).or ((l.nextTransport? fun _ => true).map .transport)

end Link

namespace Caller

def nextOfTask? (c : Caller) (t : Nat) (task : Task) : Option CallerEvent :=
  match task.progress with
  | .waiting => if c.holder.isNone then some (.acquire t) else none
  | .calling _ i k =>
    match c.links[i]?.bind fun l => l.calls[k]? with
    | some call =>
      match call.stage, call.mailbox with
      | .waiting, .empty => none
      | _, _ => some (.advance t)
    | none => none
  | .leaving _ _ => some (.advance t)
  | _ => none

def nextTask? (c : Caller) : Nat → List Task → Option CallerEvent
  | _, [] => none
  | t, task :: rest => (c.nextOfTask? t task).orElse fun () => c.nextTask? (t + 1) rest

def nextLink? (may : CallerEvent → Bool) : Nat → List Link → Option CallerEvent
  | _, [] => none
  | i, l :: rest =>
    match l.nextTransport? fun event => may (.transport i event) with
    | some event => some (.transport i event)
    | none => nextLink? may (i + 1) rest

def next? (may : CallerEvent → Bool) (c : Caller) : Option CallerEvent :=
  (c.nextTask? 0 c.tasks).orElse fun () => nextLink? may 0 c.links

def dialing? (c : Caller) : Option Nat :=
  c.tasks.findIdx? fun task =>
    match task.progress with
    | .dialing _ => true
    | _ => false

end Caller

end GameRelay.Outbound
