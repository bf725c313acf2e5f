import GameRelay.Text.Terminal

/-!
# Log lines

What is reported while running: a level and a message. A message may hold what
others sent, so that its controls are spelled out where it is written.
-/

set_option autoImplicit false

namespace GameRelay

inductive Level where
  | info
  | warn
  | error
  deriving DecidableEq, Repr

structure LogLine where
  level : Level
  message : String
  deriving DecidableEq, Repr

def Level.name : Level → String
  | .info => "INFO"
  | .warn => "WARN"
  | .error => "ERROR"

def LogLine.text (l : LogLine) : String := s!"{l.level.name} {l.message}"

def LogLine.written (l : LogLine) : LogLine := { l with message := Text.spelled l.message }

end GameRelay
