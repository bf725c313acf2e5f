import GameRelay.SystemError

/-!
# Accepting, and closing the door

One task accepts connections until it is stopped. Closing takes the handle of
that task out of its slot, asks the task to stop and waits until it has; a
second closer that finds the slot empty returns at once. A task that was asked
to stop lets go of its socket only when the runtime next handles it.
-/

set_option autoImplicit false

namespace GameRelay.Inbound

inductive Closer where
  | started
  /-- Holds the handle; the task has not been asked to stop yet. -/
  | holding
  | waiting
  | returned
  | abandoned
  deriving DecidableEq, Repr

structure Door where
  /-- The handle of the accepting task is in its slot. -/
  handle : Bool := true
  /-- The accepting task was asked to stop. -/
  stopping : Bool := false
  isOpen : Bool := true
  resting : Bool := false
  closers : List Closer := []
  deriving DecidableEq, Repr

inductive DoorEvent where
  | rested
  | close
  | advance (closer : Nat)
  | abandon (closer : Nat)
  | drop
  /-- The runtime handles the task that was asked to stop. -/
  | stopped
  deriving DecidableEq, Repr

namespace Door

def accepts (d : Door) : Bool := d.isOpen && !d.resting

def isClosed (d : Door) : Bool := !d.handle

def rest (d : Door) : Door := if d.accepts then { d with resting := true } else d

def setCloser (d : Door) (k : Nat) (c : Closer) : Door := { d with closers := d.closers.set k c }

def advance (d : Door) (k : Nat) : Door :=
  match d.closers[k]? with
  | some .started =>
    if d.handle then { d.setCloser k .holding with handle := false } else d.setCloser k .returned
  | some .holding => { d.setCloser k .waiting with stopping := true }
  | some .waiting => if d.isOpen then d else d.setCloser k .returned
  | _ => d

def abandon (d : Door) (k : Nat) : Door :=
  match d.closers[k]? with
  | some .started | some .waiting => d.setCloser k .abandoned
  | _ => d

def step (d : Door) : DoorEvent → Door
  | .rested => { d with resting := false }
  | .close => { d with closers := d.closers ++ [.started] }
  | .advance k => d.advance k
  | .abandon k => d.abandon k
  | .drop => if d.handle then { d with handle := false, stopping := true } else d
  | .stopped => if d.stopping then { d with isOpen := false } else d

def run : Door → List DoorEvent → Door
  | d, [] => d
  | d, event :: rest => run (d.step event) rest

/-- A socket that is closed stays closed. -/
theorem step_isOpen_false (d : Door) (event : DoorEvent) (h : d.isOpen = false) :
    (d.step event).isOpen = false := by
  cases event with
  | advance k => simp only [step, advance]; split <;> (try split) <;> simp_all [setCloser]
  | abandon k => simp only [step, abandon]; split <;> simp_all [setCloser]
  | drop => simp only [step]; split <;> simp_all
  | stopped => simp only [step]; split <;> simp_all
  | rested => exact h
  | close => exact h

end Door

end GameRelay.Inbound
