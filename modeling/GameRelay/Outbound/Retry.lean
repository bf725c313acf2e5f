import GameRelay.RelayError

/-!
# The retry budget of one call

A call earns one reconnect and one more attempt, and only where it was refused
because the connection had been shut down before. Every other failure is final.
-/

set_option autoImplicit false

namespace GameRelay.Outbound

inductive Budget where
  | firstAttempt
  | retried
  deriving DecidableEq, Repr

inductive RetryStep where
  | reconnect
  | fail (error : RelayError)
  deriving DecidableEq, Repr

namespace Budget

def afterFailure : Budget → RelayError → Budget × RetryStep
  | .firstAttempt, .shutdown => (.retried, .reconnect)
  | budget, error => (budget, .fail error)

def history : Budget → List RelayError → List (Budget × RetryStep)
  | _, [] => []
  | budget, error :: rest =>
    let answer := budget.afterFailure error
    answer :: history answer.1 rest

end Budget

end GameRelay.Outbound
