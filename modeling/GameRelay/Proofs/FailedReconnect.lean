import GameRelay.Proofs.Caller.FailedDial
import GameRelay.Proofs.Roles

/-!
# A reconnect that fails changes nothing

Whatever a dial fails for, the client keeps the connection that it has, with its
table and its flag, and its listener. A run into which such a dial was put goes on
as the run without it.
-/

set_option autoImplicit false

namespace GameRelay

open GameRelay.Frame GameRelay.Inbound GameRelay.Json GameRelay.Outbound GameRelay.Text

def ClientEvent.movedBy (place : Nat) : ClientEvent → ClientEvent
  | .outbound event => .outbound (event.movedBy place)
  | .inbound event => .inbound event

namespace Client

variable {σ : Type}

/-- What happens otherwise, with an attempt to reconnect put in: it waits for the lock, and dials
in vain. -/
def withFailedReconnect (place : Nat) (error : RelayError) (waits during after : List ClientEvent) :
    List ClientEvent :=
  .outbound (.ask .reconnect) :: waits.map (.movedBy place) ++
    (.outbound (.acquire place) :: during.map (.movedBy place) ++
      (.outbound (.dialed place (.error error)) :: after.map (.movedBy place)))

theorem run_config (consumer : Consumer σ) (c : Client σ) (events : List ClientEvent) :
    (c.run consumer events).config = c.config := by
  induction events generalizing c with
  | nil => rfl
  | cons event rest ih => cases event <;> exact ih _

/-- Each side goes its own way, and the configuration stays. -/
theorem run_eq (consumer : Consumer σ) (c : Client σ) (events : List ClientEvent) :
    c.run consumer events =
      { c with
        caller := c.caller.run (outboundOf events)
        listener := c.listener.run consumer (inboundOf events) } := by
  rw [← run_caller consumer, ← run_listener, ← run_config consumer c events]

theorem outboundOf_append (events more : List ClientEvent) :
    outboundOf (events ++ more) = outboundOf events ++ outboundOf more :=
  List.filterMap_append

theorem inboundOf_append (events more : List ClientEvent) :
    inboundOf (events ++ more) = inboundOf events ++ inboundOf more :=
  List.filterMap_append

theorem outboundOf_outbound (event : CallerEvent) (rest : List ClientEvent) :
    outboundOf (.outbound event :: rest) = event :: outboundOf rest := rfl

theorem inboundOf_outbound (event : CallerEvent) (rest : List ClientEvent) :
    inboundOf (.outbound event :: rest) = inboundOf rest := rfl

theorem outboundOf_movedBy (place : Nat) (events : List ClientEvent) :
    outboundOf (events.map (.movedBy place)) = (outboundOf events).map (.movedBy place) := by
  induction events with
  | nil => rfl
  | cons event rest ih =>
    cases event with
    | outbound event => exact congrArg (event.movedBy place :: ·) ih
    | inbound event => exact ih

theorem inboundOf_movedBy (place : Nat) (events : List ClientEvent) :
    inboundOf (events.map (.movedBy place)) = inboundOf events := by
  induction events with
  | nil => rfl
  | cons event rest ih =>
    cases event with
    | outbound event => exact ih
    | inbound event => exact congrArg (event :: ·) ih

section
variable (place : Nat) (error : RelayError) (waits during after : List ClientEvent)

theorem outboundOf_withFailedReconnect :
    outboundOf (withFailedReconnect place error waits during after) =
      Caller.withFailedDial place error (outboundOf waits) (outboundOf during)
        (outboundOf after) := by
  simp only [withFailedReconnect, Caller.withFailedDial, outboundOf_append, outboundOf_outbound,
    outboundOf_movedBy]

theorem inboundOf_withFailedReconnect :
    inboundOf (withFailedReconnect place error waits during after) =
      inboundOf (waits ++ during ++ after) := by
  simp only [withFailedReconnect, inboundOf_append, inboundOf_outbound, inboundOf_movedBy,
    List.append_assoc]

end

/-! ## Two runs -/

/-- `d` is the client to whose run an attempt to reconnect was put, as the task at `place`, and
which failed. -/
structure Unnoticed (place : Nat) (error : RelayError) (c d : Client σ) : Prop where
  config : d.config = c.config
  listener : d.listener = c.listener
  /-- Every connection is the same, and so is every line that was sent on it. -/
  links : d.caller.links = c.caller.links
  installed : d.caller.installed = c.caller.installed
  /-- Every call has come to the same. -/
  verdicts : ∀ t, d.caller.verdict? (movedBy place t) = c.caller.verdict? t
  tasks : ∀ t, d.caller.tasks[movedBy place t]? = c.caller.tasks[t]?
  lock : d.caller.holder = c.caller.holder.map (movedBy place)
  failed : d.caller.verdict? place = some (.connected false)
  log : ∃ earlier later, c.caller.reports = earlier ++ later ∧
    d.caller.reports = earlier ++ .dialFailed error :: later

theorem unnoticed_of_beside {c d : Client σ} {place since : Nat} {error : RelayError}
    (hconfig : d.config = c.config) (hlistener : d.listener = c.listener)
    (hplace : place ≤ c.caller.tasks.length)
    (hd : d.caller = c.caller.beside (Caller.disappointed place since error)) :
    Unnoticed place error c d := by
  constructor
  case config => exact hconfig
  case listener => exact hlistener
  case links => rw [hd, Caller.beside]
  case installed => rw [hd, Caller.beside]
  case verdicts =>
    intro t
    rw [hd]
    exact Caller.verdict?_beside _ (Caller.disappointed place since error) t
  case tasks =>
    intro t
    rw [hd]
    exact Caller.beside_tasks _ (Caller.disappointed place since error) t
  case lock =>
    rw [hd]
    rfl
  case failed =>
    have htask : d.caller.tasks[place]? = some ⟨.reconnect, .done (.connected false), _⟩ :=
      hd ▸ Caller.task_beside (by exact hplace)
    rw [Caller.verdict?, htask]
    rfl
  case log =>
    refine ⟨c.caller.reports.take since, c.caller.reports.drop since,
      (List.take_append_drop _ _).symm, ?_⟩
    rw [hd]
    simp [Caller.beside, Caller.disappointed]

structure FailsToDial (consumer : Consumer σ) (error : RelayError) (c : Client σ) : Prop where
  /-- Who asked for a new connection is told that there is none. -/
  connect : ∀ t asked, c.caller.tasks[t]? = some asked → asked.progress = .dialing none →
    c.step consumer (.outbound (.dialed t (.error error))) =
      { c with caller := c.caller.undialed t asked (.connected false) [.dialFailed error] }
  /-- Who was refused has lost the connection. -/
  retry : ∀ t asked budget, c.caller.tasks[t]? = some asked →
    asked.progress = .dialing (some budget) →
    c.step consumer (.outbound (.dialed t (.error error))) =
      { c with caller := (c.caller.undialed t asked (.outcome (.error .lostConnection))
        [.dialFailed error, .lost]) }
  /-- From its beginning such a call has spent an id, and nothing more. -/
  call : ∀ t asked spec l line events, c.caller.tasks[t]? = some asked →
    asked.progress = .waiting → c.caller.holder = none → asked.ask.call? = some spec →
    c.caller.links[c.caller.installed]? = some l → l.shutDown = true →
    spec.argument.callLine? spec.method l.nextId = some line →
    outboundOf events = [.acquire t, .advance t, .advance t, .dialed t (.error error)] →
    c.run consumer events =
      { c with
        listener := c.listener.run consumer (inboundOf events)
        caller := (({ c.caller with
          links := c.caller.links.set c.caller.installed
            (l.adding spec line (.ended (some (.error .shutdown)))) } : Caller).undialed t
          { asked with
            history := asked.history ++ [.attempt c.caller.installed l.calls.length] }
          (.outcome (.error .lostConnection)) [.dialFailed error, .lost]) }
  /-- Nobody else can tell that somebody has tried. -/
  unnoticed : ∀ waits during after, (c.run consumer waits).caller.holder = none →
    (∀ event ∈ outboundOf during, event.acquires = false) →
    Unnoticed c.caller.tasks.length error (c.run consumer (waits ++ during ++ after))
      (c.run consumer
        (withFailedReconnect c.caller.tasks.length error waits during after))

theorem run_failsToDial (consumer : Consumer σ) (config : Config) (start : σ)
    (events : List ClientEvent) (error : RelayError) :
    FailsToDial consumer error ((fresh config start).run consumer events) := by
  have hguarded : ((fresh config start).run consumer events).caller.Guarded := by
    rw [run_caller]
    exact Caller.run_guarded _ Caller.fresh_guarded
  generalize (fresh config start).run consumer events = c at hguarded
  constructor
  case connect =>
    intro t asked ht hp
    rw [step, Caller.step_undialed ht hp]
  case retry =>
    intro t asked budget ht hp
    have hcourse := hguarded.sane.course t asked ht
    obtain ⟨spec, hspec⟩ : ∃ spec, asked.ask.call? = some spec := by
      obtain ⟨ask, progress, history⟩ := asked
      obtain rfl : progress = .dialing (some budget) := hp
      cases hcourse with
      | refused spec i k hspec => exact ⟨spec, hspec⟩
    rw [step, Caller.step_undialed_call ht hp hspec]
  case call =>
    intro t asked spec l line more ht hp hfree hspec hl hshut hline hmore
    rw [run_eq, hmore, Caller.run_undialed ht hp hfree hspec hl
      (hguarded.sane.linked.live l hl) hshut hline error]
  case unnoticed =>
    intro waits during after hfree hduring
    rw [run_caller] at hfree
    have hcaller := Caller.run_withFailedDial hguarded error (outboundOf waits) (outboundOf during)
      (outboundOf after) hfree hduring
    have hplace := (Caller.fits_newcomer c.caller).run (outboundOf (waits ++ during ++ after))
    apply unnoticed_of_beside
    · rw [run_config, run_config]
    · rw [run_listener, run_listener, inboundOf_withFailedReconnect]
    · rw [run_caller]
      exact hplace.place
    · rw [run_caller, run_caller, outboundOf_withFailedReconnect, hcaller, outboundOf_append,
        outboundOf_append]

def earlyAnswer : List CallerEvent :=
  [.transport 0 (.arrive (encode "\x7b\"id\":0,\"result\":true\x7d\n"))]

def wholeCall : List CallerEvent :=
  [.acquire 0, .advance 0, .advance 0, .transport 0 .read, .transport 0 .hand, .advance 0,
    .advance 0, .advance 0]

/-- A dial that was refused in between, as the first task, keeps nobody from the answer. -/
theorem call_accepted_after_failed_reconnect :
    ((fresh .default 0).run Listener.counting
      (withFailedReconnect 0 (.connect "relay:1" (.code 111))
        [.outbound (.ask (.create "a" "")), .inbound .accept]
        (earlyAnswer.map .outbound) (wholeCall.map .outbound))).caller.verdict? 1 =
      ((fresh .default 0).run Listener.counting
        ([.outbound (.ask (.create "a" "")), .inbound .accept] ++ earlyAnswer.map .outbound ++
          wholeCall.map .outbound)).caller.verdict? 0 ∧
    ((fresh .default 0).run Listener.counting
      (withFailedReconnect 0 (.connect "relay:1" (.code 111))
        [.outbound (.ask (.create "a" "")), .inbound .accept]
        (earlyAnswer.map .outbound) (wholeCall.map .outbound))).caller.verdict? 0 =
      some (.connected false) ∧
    (((fresh .default 0).run Listener.counting
      ([.outbound (.ask (.create "a" "")), .inbound .accept] ++ earlyAnswer.map .outbound ++
        wholeCall.map .outbound)).caller.verdict? 0).map Verdict.accepted = some true := by
  have h := (run_failsToDial Listener.counting .default 0 []
    (.connect "relay:1" (.code 111))).unnoticed
    [.outbound (.ask (.create "a" "")), .inbound .accept] (earlyAnswer.map .outbound)
    (wholeCall.map .outbound) rfl (by decide)
  exact ⟨h.verdicts 0, h.failed, by decide +kernel⟩

end Client

end GameRelay
