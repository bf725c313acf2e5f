import GameRelay.Host.Run
import GameRelay.Inbound.Schedule
import GameRelay.Outbound.Schedule

/-!
# What happens next in a run

The host looks first whether it can go on; then come the outbound side, the
inbound side and the closing of the listening socket. Steps for which `may` does
not hold are passed over.
-/

set_option autoImplicit false

namespace GameRelay.Host.Run

def isReady (r : Run) : Bool :=
  match r.stage with
  | .creating task | .removing task => (r.accepted? task).isSome
  | .closing k => r.closer? k = some .returned
  | _ => false

def next? (may : RunEvent → Bool) (r : Run) : Option RunEvent :=
  match r.stage with
  | .ended _ => none
  | _ =>
    if r.isReady then some .advance
    else
      ((r.caller.bind fun c => c.next? fun event => may (.outbound event)).map .outbound).or
        ((r.listener.bind fun l =>
          (l.next? fun event => may (.inbound event)).or (l.door.next?.map .door)).map .inbound)

def dialing? (r : Run) : Option Nat := r.caller.bind Outbound.Caller.dialing?

def news (relay : String) (peer : Nat → String) (before after : Run) : List LogLine :=
  let outbound := fun r : Run => (r.caller.map Outbound.Caller.reports).getD []
  let inbound := fun r : Run => (r.listener.map Inbound.Listener.reports).getD []
  ((outbound after).drop (outbound before).length).map (Outbound.CallerReport.log relay)
    ++ ((inbound after).drop (inbound before).length).map
      (fun entry => entry.2.log ((entry.1.map peer).getD relay))
    ++ after.log.drop before.log.length

end GameRelay.Host.Run
