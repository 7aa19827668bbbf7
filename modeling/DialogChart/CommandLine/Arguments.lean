/-!
# Arguments of the command line

There is one positional argument, the input, and options for the output, the settings and the
level of the log.  An option takes its value from behind an equals sign, directly behind its
letter, or from the next argument; `--` ends the options.

Arguments are read from left to right.  An option whose value is still to come, or has just
come, is settled when the next argument is understood, so a fault of the next argument itself
is reported first.
-/

namespace DialogChart.CommandLine

/-- The arguments of a run. -/
structure Arguments where
  input : String
  output : String := "out.json"
  settings : Option String := none
  logLevel : String := "info"
  deriving DecidableEq, Repr

/-- Why there are no arguments for a run. -/
inductive ArgumentFault where
  | missingInput
  | unknown
  | missingValue
  | unneededValue
  | repeated
  | helpAsked
  | versionAsked
  deriving DecidableEq, Repr

/-- The options that take a value. -/
inductive Setting where
  | output
  | settings
  | logLevel
  deriving DecidableEq, Repr

/-- What an argument is. -/
inductive Word where
  | positional (value : String)
  | setting (name : Setting) (attached : Option String)
  | help
  | version
  | unneeded
  | unknown
  | endOfOptions
  deriving DecidableEq, Repr

/-- The value behind the name of a long option, and the name. -/
def splitLong (s : List Char) : String × Option String :=
  let name := String.ofList (s.takeWhile (· ≠ '='))
  match s.dropWhile (· ≠ '=') with
  | [] => (name, none)
  | _ :: value => (name, some (String.ofList value))

/-- The value directly behind a letter. -/
def attachedValue (s : List Char) : Option String :=
  match s with
  | [] => none
  | '=' :: value => some (String.ofList value)
  | value => some (String.ofList value)

/-- A flag, which takes no value. -/
def flag (word : Word) (attached : Option String) : Word :=
  if attached.isSome then .unneeded else word

/-- What an argument is, before `--`. -/
def classify (argument : String) : Word :=
  match argument.toList with
  | ['-', '-'] => .endOfOptions
  | '-' :: '-' :: s =>
    match splitLong s with
    | ("output", value) => .setting .output value
    | ("config", value) => .setting .settings value
    | ("log-level", value) => .setting .logLevel value
    | ("help", value) => flag .help value
    | ("version", value) => flag .version value
    | _ => .unknown
  | '-' :: 'o' :: s => .setting .output (attachedValue s)
  | '-' :: 'c' :: s => .setting .settings (attachedValue s)
  | '-' :: 'h' :: _ => .help
  | '-' :: 'V' :: _ => .version
  | '-' :: _ :: _ => .unknown
  | _ => .positional argument

/-- What has been read so far.  `pending` is the last option, with its value once that is
known. -/
structure State where
  input : Option String := none
  values : List (Setting × String) := []
  pending : Option (Setting × Option String) := none

namespace State

/-- Settle the last option: it needs a value and may be given only once. -/
def settle (s : State) : Except ArgumentFault State :=
  match s.pending with
  | none => .ok s
  | some (_, none) => .error .missingValue
  | some (name, some value) =>
    if (s.values.lookup name).isSome then .error .repeated
    else .ok { s with values := (name, value) :: s.values, pending := none }

/-- Take the input. -/
def takeInput (s : State) (value : String) : Except ArgumentFault State :=
  match s.input with
  | some _ => .error .unknown
  | none => do return { ← s.settle with input := some value }

/-- Read one argument before `--`. -/
def takeWord (s : State) (argument : String) : Except ArgumentFault State :=
  match classify argument with
  | .positional value =>
    match s.pending with
    | some (name, none) => .ok { s with pending := some (name, some value) }
    | _ => s.takeInput value
  | .setting name attached => do
    let s := { ← s.settle with pending := some (name, attached) }
    if attached.isSome then s.settle else return s
  | .help => do
    let _ ← s.settle
    .error .helpAsked
  | .version => do
    let _ ← s.settle
    .error .versionAsked
  | .unneeded => .error .unneededValue
  | .unknown => .error .unknown
  | .endOfOptions => .ok s

/-- The arguments that were read. -/
def finish (s : State) : Except ArgumentFault Arguments := do
  let s ← s.settle
  match s.input with
  | none => .error .missingInput
  | some input =>
    let defaults : Arguments := { input }
    return {
      input := input
      output := (s.values.lookup .output).getD defaults.output
      settings := s.values.lookup .settings
      logLevel := (s.values.lookup .logLevel).getD defaults.logLevel }

end State

/-- Read the arguments behind `--`. -/
def readInputs (s : State) : List String → Except ArgumentFault State
  | [] => .ok s
  | a :: rest => do readInputs (← s.takeInput a) rest

/-- Read arguments. -/
def readWords (s : State) : List String → Except ArgumentFault State
  | [] => .ok s
  | a :: rest =>
    if classify a = .endOfOptions then readInputs s rest
    else do readWords (← s.takeWord a) rest

/-- The arguments of a run. -/
def Arguments.parse (arguments : List String) : Except ArgumentFault Arguments := do
  (← readWords {} arguments).finish

end DialogChart.CommandLine
