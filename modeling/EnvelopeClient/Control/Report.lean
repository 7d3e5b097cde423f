import EnvelopeClient.Control.Arguments
import EnvelopeClient.IoFault

/-!
# What the control program reports

The program tells where it connects to, asks a server to echo a greeting and to tell its process
number, both at once, prints the answers and then tells the process to terminate. `Report.ofReplies`
is what comes of the two replies: a failed echo does not keep the process from being told to
terminate, but it is not told to if its number cannot be printed.
-/

namespace EnvelopeClient.Control

/-- What comes of printing a line. -/
structure Printing where
  /-- What gets out at this line. -/
  out : String
  /-- Why the line did not get out. -/
  fault : Option IoFault

/-- A line that gets out as it is. -/
def Printing.whole (line : String) : Printing := ⟨line, none⟩

/-- What a run of the program leaves behind. -/
structure Report where
  exitCode : Nat
  stdout : String
  stderr : String
  /-- The processes it sent the signal to terminate, in order. -/
  signalled : List Int

namespace Report

/-- The text shown for `--help`. -/
def help : String :=
  "Talk to a running netcore server over its local socket\n\n" ++
  "Usage: netcore-ctl [OPTIONS] [PROGRAM]\n\n" ++
  "Arguments:\n" ++
  "  [PROGRAM]  Name of the server program; the socket is `<temp dir>/<program>.sock`\n\n" ++
  "Options:\n" ++
  "      --config <CONFIG>          " ++
    "Optional TOML client configuration (socket path, mode, timeouts)\n" ++
  "      --timeout-ms <TIMEOUT_MS>  " ++
    "Per-request deadline in milliseconds; overrides the config file\n" ++
  "      --log-format <LOG_FORMAT>  " ++
    "Log output format (text or json) [default: text] [possible values: text, json]\n" ++
  "  -h, --help                     Print help\n" ++
  "  -V, --version                  Print version\n"

/-- The text shown for `--version`. -/
def version : String := "netcore-ctl 0.1.0\n"

/-- A run that only answers a question. -/
def ofInquiry : Inquiry → Report
  | .help => ⟨0, help, "", []⟩
  | .version => ⟨0, version, "", []⟩

/-- A run with arguments that cannot be used. -/
def ofUsageFault (fault : UsageFault) : Report :=
  ⟨2, "", s!"error: {fault.message}\n", []⟩

/-- A run without the name of a server and without a configuration. -/
def missingProgram : Report := ⟨1, "", "missing program name\n", []⟩

/-- The line that tells a failure. -/
def failureLine (failure : Failure) : String := s!"Error: {failure.message}\n"

/-- A run that ends in a failure before it connects. -/
def ofFailure (failure : Failure) : Report := ⟨1, "", failureLine failure, []⟩

/-- The line that tells where the program connects to. -/
def connectingLine (path : String) : String := s!"Connecting to: {path}\n"

/-- The failure to signal a process. -/
def signalFailure (process : Int) (reason : String) : Failure :=
  .io s!"failed to signal process {process}: {reason}"

/-- The reason of a signal to a process that is not there. -/
def noSuchProcess : String := "ESRCH: No such process"

/-- The line that tells the text that was sent back. -/
def echoLine (text : String) : String := s!"Echo: {text}\n"

/-- The line that tells the process number. -/
def processLine (process : Int) : String := s!"Server PID: {process}\n"

/-- A run that is given up as it cannot tell where it connects to. What the runtime system puts
around the reason is left out. -/
def ofUnprinted (out : String) (fault : IoFault) : Report :=
  ⟨101, out, s!"failed printing to stdout: {fault.text}\n", []⟩

/-- What becomes of one of the two replies. -/
structure Branch where
  out : String
  failure : Option Failure
  signalled : List Int

/-- The text that was sent back is printed. -/
def Branch.ofEcho (print : String → Printing) : Except Failure String → Branch
  | .ok text =>
    let printing := print (echoLine text)
    ⟨printing.out, printing.fault.map IoFault.toFailure, []⟩
  | .error failure => ⟨"", some failure, []⟩

/-- The process number is printed, and then the process is told to terminate. `signal` sends the
signal and may say why that failed. -/
def Branch.ofProcess (print : String → Printing) (signal : Int → Option String) :
    Except Failure Int → Branch
  | .ok n =>
    let printing := print (processLine n)
    match printing.fault with
    | some fault => ⟨printing.out, some fault.toFailure, []⟩
    | none => ⟨printing.out, (signal n).map (signalFailure n), [n]⟩
  | .error failure => ⟨"", some failure, []⟩

/-- What comes of the two replies behind what was told before. The failure of the echo is told
first. -/
def ofReplies (print : String → Printing) (signal : Int → Option String) (told : String)
    (echo : Except Failure String) (process : Except Failure Int) : Report :=
  let echoed := Branch.ofEcho print echo
  let stopped := Branch.ofProcess print signal process
  let failures := echoed.failure.toList ++ stopped.failure.toList
  ⟨if failures.isEmpty then 0 else 1, told ++ echoed.out ++ stopped.out,
    String.join (failures.map failureLine), stopped.signalled⟩

end Report

end EnvelopeClient.Control
