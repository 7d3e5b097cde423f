import EnvelopeClient.Text.ControlSequence

/-!
# Command-line arguments

`Invocation.ofArguments` reads the arguments of the control program. Options are given as
`--name value` or `--name=value`, before or behind the name of the server; `--` ends them.

A value in an argument of its own is looked at only when the next argument is known to be all
right, or at the end; so of two faults the one behind it may be reported first. A value behind an
equals sign is looked at once.
-/

namespace EnvelopeClient.Control

open Text

/-- What the log looks like. -/
inductive LogFormat where
  | text
  | json
  deriving DecidableEq, Repr

/-- An option with a value. -/
inductive Setting where
  | config
  | timeout
  | logFormat
  deriving DecidableEq, Repr

namespace Setting

/-- The name of an option. -/
def name : Setting → String
  | .config => "config"
  | .timeout => "timeout-ms"
  | .logFormat => "log-format"

/-- An option as messages show it. -/
def display : Setting → String
  | .config => "--config <CONFIG>"
  | .timeout => "--timeout-ms <TIMEOUT_MS>"
  | .logFormat => "--log-format <LOG_FORMAT>"

/-- The option of a name. -/
def ofName? (name : String) : Option Setting :=
  [config, timeout, logFormat].find? (·.name = name)

end Setting

/-- A question that is answered instead of running. -/
inductive Inquiry where
  | help
  | version
  deriving DecidableEq, Repr

namespace Inquiry

/-- The long name of an inquiry. -/
def name : Inquiry → String
  | .help => "help"
  | .version => "version"

/-- The one-letter name of an inquiry. -/
def letter : Inquiry → Char
  | .help => 'h'
  | .version => 'V'

/-- The inquiry of a name. -/
def ofName? (name : String) : Option Inquiry :=
  [help, version].find? (·.name = name)

/-- The inquiry of a letter. -/
def ofLetter? (letter : Char) : Option Inquiry :=
  [help, version].find? (·.letter = letter)

end Inquiry

/-- What is wrong with the text of a number. -/
inductive NumberFault where
  | empty
  | digit
  | tooLarge
  deriving DecidableEq, Repr

/-- The wording of a number's fault. -/
def NumberFault.message : NumberFault → String
  | .empty => "cannot parse integer from empty string"
  | .digit => "invalid digit found in string"
  | .tooLarge => "number too large to fit in target type"

/-- Why arguments cannot be used. -/
inductive UsageFault where
  | unexpected (argument : String)
  | missingValue (setting : Setting)
  | repeated (setting : Setting)
  | number (value : String) (fault : NumberFault)
  | logFormat (value : String)
  /-- A value for something that takes none. -/
  | unwantedValue (value : String) (inquiry : Inquiry)
  deriving DecidableEq, Repr

/-- The wording of a usage fault. Arguments are told without what only a terminal would obey. -/
def UsageFault.message : UsageFault → String
  | .unexpected argument => s!"unexpected argument '{withoutSequences argument}' found"
  | .missingValue setting => s!"a value is required for '{setting.display}' but none was supplied"
  | .repeated setting => s!"the argument '{setting.display}' cannot be used multiple times"
  | .number value fault =>
    s!"invalid value '{withoutSequences value}' for '{Setting.timeout.display}': {fault.message}"
  | .logFormat value =>
    s!"invalid value '{withoutSequences value}' for '{Setting.logFormat.display}'"
  | .unwantedValue value inquiry =>
    s!"unexpected value '{withoutSequences value}' for '--{inquiry.name}' found; " ++
      "no more were expected"

/-- The greatest number of milliseconds: 64 bits. -/
def numberLimit : Nat := 0xffffffffffffffff

/-- Reads the digits of a number from the left; the first one that does not fit ends it. -/
def numberFrom (value : Nat) : List Char → Except NumberFault Nat
  | [] => .ok value
  | x :: rest =>
    if !x.isDigit then .error .digit
    else
      let next := 10 * value + (x.toNat - '0'.toNat)
      if numberLimit < next then .error .tooLarge else numberFrom next rest

/-- Reads a number, which may have a plus sign. -/
def readNumber (text : List Char) : Except NumberFault Nat :=
  match text with
  | [] => .error .empty
  | '+' :: first :: rest => numberFrom 0 (first :: rest)
  | text => numberFrom 0 text

/-- What the control program is told to do. -/
structure Options where
  /-- The name of the server. -/
  program : Option String
  /-- The path of a configuration. -/
  config : Option String
  /-- The time limit of a request in milliseconds. -/
  timeoutMs : Option Nat
  logFormat : Option LogFormat
  deriving DecidableEq, Repr

/-- What arguments ask for. -/
inductive Invocation where
  | inquire (inquiry : Inquiry)
  | run (options : Options)
  deriving DecidableEq, Repr

namespace Options

/-- Nothing given yet. -/
def none : Options := ⟨.none, .none, .none, .none⟩

/-- Whether an option has been given. -/
def has (o : Options) : Setting → Bool
  | .config => o.config.isSome
  | .timeout => o.timeoutMs.isSome
  | .logFormat => o.logFormat.isSome

/-- Takes the value of an option, which must be its first. -/
def take (o : Options) (setting : Setting) (value : String) : Except UsageFault Options :=
  if o.has setting then .error (.repeated setting)
  else
    match setting with
    | .config =>
      if value.isEmpty then .error (.missingValue .config) else .ok { o with config := some value }
    | .timeout =>
      match readNumber value.toList with
      | .ok ms => .ok { o with timeoutMs := some ms }
      | .error fault => .error (.number value fault)
    | .logFormat =>
      if value = "text" then .ok { o with logFormat := some .text }
      else if value = "json" then .ok { o with logFormat := some .json }
      else if value.isEmpty then .error (.missingValue .logFormat)
      else .error (.logFormat value)

end Options

/-- An option whose value has not been taken yet. -/
inductive Pending where
  | nothing
  /-- The next argument may be the value. -/
  | awaits (setting : Setting)
  | holds (setting : Setting) (value : String)

/-- Arguments part way. -/
structure Draft where
  options : Options
  pending : Pending

namespace Draft

/-- Takes the value that is pending. -/
def resolve (d : Draft) : Except UsageFault Options :=
  match d.pending with
  | .nothing => .ok d.options
  | .awaits setting => .error (.missingValue setting)
  | .holds setting value => d.options.take setting value

/-- Takes the name of the server; there is only one. -/
def takeProgram (d : Draft) (argument : String) : Except UsageFault Draft :=
  if d.options.program.isSome then .error (.unexpected argument)
  else do
    let options ← d.resolve
    return ⟨{ options with program := some argument }, .nothing⟩

/-- The end of the arguments. -/
def finish (d : Draft) : Except UsageFault Invocation :=
  d.resolve.map .run

/-- An inquiry ends the reading. -/
def inquire (d : Draft) (inquiry : Inquiry) : Except UsageFault Invocation :=
  d.resolve.map fun _ => .inquire inquiry

/-- What one argument is. -/
inductive Form where
  | separator
  /-- `--name`, and the value behind an equals sign. -/
  | long (name : String) (value : Option String)
  /-- A dash and a letter, with or without more behind it. -/
  | short (letter : Char)
  | plain

/-- The form of an argument. A dash alone is plain. -/
def Form.ofArgument (argument : String) : Form :=
  match argument.toList with
  | ['-', '-'] => .separator
  | '-' :: '-' :: rest =>
    .long (String.ofList (rest.takeWhile (· ≠ '=')))
      (match rest.dropWhile (· ≠ '=') with
        | [] => none
        | _ :: value => some (String.ofList value))
  | '-' :: letter :: _ => .short letter
  | _ => .plain

/-- Reads arguments, none of which is an option. -/
def readPlain (d : Draft) : List String → Except UsageFault Invocation
  | [] => d.finish
  | argument :: rest => do
    let d ← d.takeProgram argument
    d.readPlain rest

/-- Reads arguments. -/
def read (d : Draft) : List String → Except UsageFault Invocation
  | [] => d.finish
  | argument :: rest =>
    match Form.ofArgument argument with
    | .separator => d.readPlain rest
    | .long name value =>
      match Setting.ofName? name, Inquiry.ofName? name, value with
      | some setting, _, some value => do
        let options ← d.resolve
        let options ← options.take setting value
        Draft.read ⟨options, .nothing⟩ rest
      | some setting, _, none => do
        let options ← d.resolve
        Draft.read ⟨options, .awaits setting⟩ rest
      | none, some inquiry, some value => .error (.unwantedValue value inquiry)
      | none, some inquiry, none => d.inquire inquiry
      | none, none, _ => .error (.unexpected s!"--{name}")
    | .short letter =>
      match Inquiry.ofLetter? letter with
      | some inquiry => d.inquire inquiry
      | none => .error (.unexpected s!"-{letter}")
    | .plain =>
      match d.pending with
      | .awaits setting => Draft.read ⟨d.options, .holds setting argument⟩ rest
      | _ => do
        let d ← d.takeProgram argument
        d.read rest

end Draft

/-- What arguments ask for, or what is wrong with them. -/
def Invocation.ofArguments (arguments : List String) : Except UsageFault Invocation :=
  Draft.read ⟨.none, .nothing⟩ arguments

end EnvelopeClient.Control
