import GameRelay.Config
import GameRelay.Text.Numeral
import GameRelay.Text.Terminal

/-!
# The command line of the host

Every option is long and takes one value, attached by an equals sign or as the
next argument; `--quiet` and `--help` take none and have a letter each. A value
that starts with a dash has to be attached. An option is given at most once. A
value that follows its option is looked at only when the next option is met or
the arguments end.
-/

set_option autoImplicit false

namespace GameRelay.Host

open GameRelay.Text

inductive Setting where
  | relayHost
  | relayPort
  | listenHost
  | listenPort
  | dialTimeout
  | game
  | password
  deriving DecidableEq, Repr

namespace Setting

def all : List Setting :=
  [.relayHost, .relayPort, .listenHost, .listenPort, .dialTimeout, .game, .password]

def name : Setting → String
  | .relayHost => "relay-host"
  | .relayPort => "relay-port"
  | .listenHost => "listen-host"
  | .listenPort => "listen-port"
  | .dialTimeout => "dial-timeout"
  | .game => "game"
  | .password => "password"

def usage (s : Setting) : String :=
  let value := String.ofList (s.name.toList.map fun c => if c = '-' then '_' else c.toUpper)
  s!"--{s.name} <{value}>"

def named? (name : String) : Option Setting := all.find? fun s => s.name = name

end Setting

inductive ValueError where
  | numeral (what : NumeralError)
  | outside (value : Int)
  deriving DecidableEq, Repr

def ValueError.message : ValueError → String
  | .numeral what => what.message
  | .outside value => s!"{value} is not in 0..=65535"

inductive ArgError where
  | unexpected (argument : String)
  | missingValue (setting : Setting)
  | needlessValue (value flag : String)
  | repeated (usage : String)
  | invalidValue (value : String) (setting : Setting) (why : ValueError)
  | help
  deriving DecidableEq, Repr

/-- The line that says what is wrong, with what was given as a terminal may show
it. Help was asked for, so that nothing is. -/
def ArgError.message : ArgError → String
  | .unexpected argument => s!"error: unexpected argument '{plain argument}' found"
  | .missingValue setting =>
    s!"error: a value is required for '{setting.usage}' but none was supplied"
  | .needlessValue value flag =>
    s!"error: unexpected value '{plain value}' for '{flag}' found; no more were expected"
  | .repeated usage => s!"error: the argument '{usage}' cannot be used multiple times"
  | .invalidValue value setting why =>
    s!"error: invalid value '{plain value}' for '{setting.usage}': {why.message}"
  | .help => "Host games through a relay server"

/-- The first line of a text. A return before the line's end belongs to the end. -/
def firstLine (text : String) : String :=
  let line := text.toList.takeWhile (· != '\n')
  let hasEnd := line.length < text.length
  String.ofList (if hasEnd && line.getLast? == some '\r' then line.dropLast else line)

structure Given where
  relayHost : Option String := none
  relayPort : Option UInt16 := none
  listenHost : Option String := none
  listenPort : Option UInt16 := none
  dialTimeout : Option UInt64 := none
  game : Option String := none
  password : Option String := none
  quiet : Bool := false
  deriving DecidableEq, Repr

structure Args where
  relayHost : String
  relayPort : UInt16
  listenHost : String
  listenPort : Option UInt16
  /-- In seconds. -/
  dialTimeout : UInt64
  game : Option String
  password : String
  quiet : Bool
  deriving DecidableEq, Repr

namespace Given

def has (g : Given) : Setting → Bool
  | .relayHost => g.relayHost.isSome
  | .relayPort => g.relayPort.isSome
  | .listenHost => g.listenHost.isSome
  | .listenPort => g.listenPort.isSome
  | .dialTimeout => g.dialTimeout.isSome
  | .game => g.game.isSome
  | .password => g.password.isSome

def readPort (value : String) : Except ValueError UInt16 :=
  match readInteger 0x7fffffffffffffff value with
  | .error what => .error (.numeral what)
  | .ok i => if 0 ≤ i ∧ i < UInt16.size then .ok (UInt16.ofNat i.toNat) else .error (.outside i)

def readSeconds (value : String) : Except ValueError UInt64 :=
  ((readNatural (UInt64.size - 1) value).map UInt64.ofNat).mapError .numeral

def store (g : Given) (s : Setting) (value : String) : Except ValueError Given :=
  match s with
  | .relayHost => .ok { g with relayHost := some value }
  | .relayPort => (readPort value).map fun port => { g with relayPort := some port }
  | .listenHost => .ok { g with listenHost := some value }
  | .listenPort => (readPort value).map fun port => { g with listenPort := some port }
  | .dialTimeout => (readSeconds value).map fun n => { g with dialTimeout := some n }
  | .game => .ok { g with game := some value }
  | .password => .ok { g with password := some value }

def set (g : Given) (s : Setting) (value : String) : Except ArgError Given :=
  if g.has s then .error (.repeated s.usage)
  else (g.store s value).mapError (.invalidValue value s)

def toArgs (g : Given) : Args where
  relayHost := g.relayHost.getD Config.defaultRelayHost
  relayPort := g.relayPort.getD Config.defaultRelayPort
  listenHost := g.listenHost.getD Config.defaultListenHost
  listenPort := g.listenPort
  dialTimeout := g.dialTimeout.getD 10
  game := g.game
  password := g.password.getD ""
  quiet := g.quiet

end Given

/-- The options read so far. The last one may still wait for its value, or for
its value to be looked at. -/
structure Parsing where
  given : Given := {}
  pending : Option (Setting × Option String) := none

inductive Form where
  /-- Everything after it is a plain argument. -/
  | separator
  | long (name : List Char) (value : Option (List Char))
  | short (letters : List Char)
  | plain

def Form.ofArgument (argument : String) : Form :=
  match argument.toList with
  | ['-', '-'] => .separator
  | '-' :: '-' :: rest =>
    match rest.dropWhile (· != '=') with
    | _ :: value => .long (rest.takeWhile (· != '=')) (some value)
    | [] => .long rest none
  | '-' :: c :: rest => .short (c :: rest)
  | _ => .plain

namespace Parsing

def resolve (p : Parsing) : Except ArgError Given :=
  match p.pending with
  | none => .ok p.given
  | some (s, none) => .error (.missingValue s)
  | some (s, some value) => p.given.set s value

def quiet (p : Parsing) : Except ArgError Parsing := do
  let given ← p.resolve
  if given.quiet then .error (.repeated "--quiet")
  else return { given := { given with quiet := true } }

def help {α : Type} (p : Parsing) : Except ArgError α := do
  let _ ← p.resolve
  .error .help

def letters : Parsing → List Char → Except ArgError Parsing
  | p, [] => .ok p
  | p, 'q' :: rest => do letters (← p.quiet) rest
  | p, 'h' :: _ => p.help
  | _, c :: _ => .error (.unexpected (String.ofList ['-', c]))

def long (p : Parsing) (name : String) (value : Option String) : Except ArgError Parsing :=
  match Setting.named? name with
  | some s => do
    let given ← p.resolve
    match value with
    | some value => return { given := ← given.set s value }
    | none => return { given, pending := some (s, none) }
  | none =>
    if name = "quiet" then
      match value with
      | some value => .error (.needlessValue value "--quiet")
      | none => p.quiet
    else if name = "help" then
      match value with
      | some value => .error (.needlessValue value "--help")
      | none => p.help
    else .error (.unexpected s!"--{name}")

def plain (p : Parsing) (argument : String) : Except ArgError Parsing :=
  match p.pending with
  | some (s, none) => .ok { p with pending := some (s, some argument) }
  | _ => .error (.unexpected argument)

end Parsing

def parseFrom : Parsing → List String → Except ArgError Given
  | p, [] => p.resolve
  | p, argument :: rest =>
    match Form.ofArgument argument with
    | .separator =>
      match rest with
      | [] => p.resolve
      | next :: _ => .error (.unexpected next)
    | .long name value => do
      parseFrom (← p.long (String.ofList name) (value.map String.ofList)) rest
    | .short letters => do parseFrom (← p.letters letters) rest
    | .plain => do parseFrom (← p.plain argument) rest

def Args.parse (arguments : List String) : Except ArgError Args :=
  (parseFrom {} arguments).map Given.toArgs

def Args.config (args : Args) : Config :=
  let config := Config.forRelay args.relayHost args.relayPort
  { config with
    listenHost := args.listenHost
    listenPort := args.listenPort.getD config.listenPort
    dialTimeout := .ofSeconds args.dialTimeout.toNat }

end GameRelay.Host
