import GameRelay.Config
import GameRelay.Method
import GameRelay.Outbound.Link
import GameRelay.Outbound.Retry

/-!
# Calling the relay, with one reconnect

Exactly one link is installed at a time. A task that wants to call the relay, or
to replace the link, takes a lock first and holds it until it is done: over its
call, over the reconnect where the call was refused, and over the second call. A
link that is replaced is dropped; its tasks stop when the runtime next handles
them. A step that is not possible where it is asked for changes nothing.
-/

set_option autoImplicit false

namespace GameRelay.Outbound

open GameRelay.Frame GameRelay.Json

inductive Ask where
  | create (name password : String)
  | remove (name : String)
  | call (spec : CallSpec)
  | reconnect

def Ask.call? : Ask → Option CallSpec
  | .create name password => some (.game Method.newGame ⟨name, password⟩)
  | .remove name => some (.game Method.removeGame (.named name))
  | .call spec => some spec
  | .reconnect => none

inductive Verdict where
  | outcome (result : Outcome)
  | connected (succeeded : Bool)

/-- The relay did as it was asked. Every failure counts as a refusal. -/
def Verdict.accepted : Verdict → Bool
  | .outcome (.ok (.bool b)) => b
  | .outcome _ => false
  | .connected b => b

inductive Progress where
  | waiting
  | calling (budget : Budget) (link call : Nat)
  /-- Dials a new link; a call goes on with what is left of its budget. -/
  | dialing (budget : Option Budget)
  | done (verdict : Verdict)
  /-- Was given up during a call whose entry is still in the table. -/
  | leaving (link call : Nat)
  | abandoned

inductive Episode where
  | attempt (link call : Nat)
  | dial (succeeded : Bool)
  deriving DecidableEq, Repr

structure Task where
  ask : Ask
  progress : Progress := .waiting
  history : List Episode := []

inductive CallerReport where
  | link (report : LinkReport)
  | dialFailed (error : RelayError)
  | lost
  | reconnected
  | callFailed (method : String) (error : RelayError)

def CallerReport.log (peer : String) : CallerReport → LogLine
  | .link report => report.log peer
  | .dialFailed error => ⟨.error, error.message⟩
  | .lost => ⟨.error, "Lost connection to relay and unable to reconnect"⟩
  | .reconnected => ⟨.warn, "Lost connection to relay but was able to reconnect"⟩
  | .callFailed method error => ⟨.error, s!"Relay call {method} failed: {error.message}"⟩

structure Caller where
  links : List Link := [{}]
  installed : Nat := 0
  holder : Option Nat := none
  tasks : List Task := []
  reports : List CallerReport := []

inductive CallerEvent where
  | ask (what : Ask)
  /-- Takes the lock, if it is free, and begins. -/
  | acquire (task : Nat)
  /-- The next small step of the task's call, or of what follows it. -/
  | advance (task : Nat)
  | dialed (task : Nat) (result : Except RelayError Unit)
  | abandon (task : Nat)
  | transport (link : Nat) (event : TransportEvent)
  /-- The runtime handles a link that was replaced. -/
  | reap (link : Nat)

namespace Caller

def report (c : Caller) (r : CallerReport) : Caller := { c with reports := c.reports ++ [r] }

def setProgress (c : Caller) (t : Nat) (progress : Progress) : Caller :=
  { c with tasks := c.tasks.modify t fun task => { task with progress } }

def record (c : Caller) (t : Nat) (episode : Episode) : Caller :=
  { c with
    tasks := c.tasks.modify t fun task => { task with history := task.history ++ [episode] } }

def onLink (c : Caller) (i : Nat) (event : LinkEvent) : Caller :=
  match c.links[i]? with
  | none => c
  | some l =>
    { c with
      links := c.links.set i (l.step event)
      reports := c.reports ++ ((l.step event).reports.drop l.reports.length).map .link }

def release (c : Caller) (t : Nat) (progress : Progress) : Caller :=
  { c.setProgress t progress with holder := none }

def nextCall (c : Caller) (i : Nat) : Nat :=
  match c.links[i]? with
  | some l => l.calls.length
  | none => 0

def attempt (c : Caller) (t : Nat) (budget : Budget) (spec : CallSpec) : Caller :=
  let number := c.nextCall c.installed
  let c := c.record t (.attempt c.installed number)
  (c.onLink c.installed (.start spec.method spec.argument spec.want)).setProgress t
    (.calling budget c.installed number)

def acquire (c : Caller) (t : Nat) (task : Task) : Caller :=
  let c := { c with holder := some t }
  match task.ask.call? with
  | some spec => c.attempt t .firstAttempt spec
  | none => c.setProgress t (.dialing none)

def settle (c : Caller) (t : Nat) (method : String) (budget : Budget) : Outcome → Caller
  | .ok v => c.release t (.done (.outcome (.ok v)))
  | .error error =>
    match budget.afterFailure error with
    | (budget, .reconnect) => c.setProgress t (.dialing (some budget))
    | (_, .fail error) =>
      (c.report (.callFailed method error)).release t (.done (.outcome (.error error)))

def stage? (c : Caller) (i k : Nat) : Option Stage :=
  (c.links[i]?.bind fun l => l.calls[k]?).map Call.stage

def advance (c : Caller) (t : Nat) (task : Task) : Caller :=
  match task.progress with
  | .calling budget i k =>
    match c.stage? i k with
    | some (.ended (some outcome)) =>
      match task.ask.call? with
      | some spec => c.settle t spec.method budget outcome
      | none => c
    | some stage =>
      match stage.next? with
      | some step => c.onLink i (.call k step)
      | none => c
    | none => c
  | .leaving i k =>
    match c.stage? i k with
    | some (.leaving _) => c.onLink i (.call k .leave)
    | some (.ended _) => c.release t .abandoned
    | _ => c
  | _ => c

def install (c : Caller) : Caller :=
  { c with links := c.links ++ [{}], installed := c.links.length }

def dialed (c : Caller) (t : Nat) (task : Task) (result : Except RelayError Unit) : Caller :=
  match task.progress, task.ask.call? with
  | .dialing (some budget), some spec =>
    match result with
    | .ok () => ((c.record t (.dial true)).install.report .reconnected).attempt t budget spec
    | .error error =>
      (((c.record t (.dial false)).report (.dialFailed error)).report .lost).release t
        (.done (.outcome (.error .lostConnection)))
  | .dialing none, _ =>
    match result with
    | .ok () => (c.record t (.dial true)).install.release t (.done (.connected true))
    | .error error =>
      ((c.record t (.dial false)).report (.dialFailed error)).release t
        (.done (.connected false))
  | _, _ => c

def abandon (c : Caller) (t : Nat) (task : Task) : Caller :=
  match task.progress with
  | .waiting => c.setProgress t .abandoned
  | .calling _ i k =>
    match c.stage? i k with
    | some .waiting => (c.onLink i (.call k .abandon)).setProgress t (.leaving i k)
    | _ => c
  | .dialing _ => c.release t .abandoned
  | _ => c

def onTask (c : Caller) (t : Nat) (f : Task → Caller) : Caller :=
  match c.tasks[t]? with
  | some task => f task
  | none => c

def step (c : Caller) : CallerEvent → Caller
  | .ask what => { c with tasks := c.tasks ++ [{ ask := what }] }
  | .acquire t => c.onTask t fun task =>
    match task.progress, c.holder with
    | .waiting, none => c.acquire t task
    | _, _ => c
  | .advance t => c.onTask t (c.advance t)
  | .dialed t result => c.onTask t fun task => c.dialed t task result
  | .abandon t => c.onTask t (c.abandon t)
  | .transport i event => c.onLink i (.transport event)
  | .reap i => if i = c.installed then c else c.onLink i .discard

def run : Caller → List CallerEvent → Caller
  | c, [] => c
  | c, event :: rest => run (c.step event) rest

theorem run_append (c : Caller) (events more : List CallerEvent) :
    c.run (events ++ more) = (c.run events).run more := by
  induction events generalizing c with
  | nil => rfl
  | cons event rest ih => exact ih _

def drop (c : Caller) : Caller := c.onLink c.installed .discard

def verdict? (c : Caller) (t : Nat) : Option Verdict :=
  match (c.tasks[t]?).map Task.progress with
  | some (.done verdict) => some verdict
  | _ => none

end Caller

end GameRelay.Outbound
