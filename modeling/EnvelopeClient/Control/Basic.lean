import EnvelopeClient.Config.Load
import EnvelopeClient.Control.Report
import EnvelopeClient.Scenario.Basic

/-!
# The control program

`Control.run` is a whole run of the program in given surroundings: it reads the arguments, settles
the configuration, lets a client ask the server both questions at once, and reports.

The name of a server always decides the socket path, and a time limit given on the command line
takes the place of the configured one.
-/

namespace EnvelopeClient.Control

/-- The text that is sent to be echoed. -/
def greeting : String := "Hello!"

/-- What a run finds around it. -/
structure Surroundings where
  /-- The directory of sockets. -/
  temporaryDirectory : String
  files : Files
  /-- What the server does. -/
  script : Script
  /-- Sends a process the signal to terminate; the answer is why that failed. -/
  signal : Int → Option String
  /-- Prints a line. -/
  print : String → Printing := Printing.whole

/-- A configuration with what the command line decides. -/
def override (directory : String) (o : Options) (c : Config) : Config :=
  { c with
    socketPath := (o.program.map (SocketPath.ofProgram directory)).getD c.socketPath
    timeouts := { c.timeouts with requestMs := o.timeoutMs.getD c.timeouts.requestMs } }

/-- The configuration of a run, or `none` without a server's name and without a file to read. -/
def configure (directory : String) (read : String → Except IoFault (List UInt8)) (o : Options) :
    Option (Except Failure Config) :=
  match o.config, o.program with
  | some file, _ => some ((Config.ofFile (read file)).map (override directory o))
  | none, some program =>
    some (.ok (override directory o (.ofPath (SocketPath.ofProgram directory program))))
  | none, none => none

/-- Tells where it connects to, asks both questions and reports; `none` if one of them is never
answered. -/
def ask (s : Surroundings) (c : Config) : Option Report :=
  let connecting := s.print (Report.connectingLine c.socketPath)
  match connecting.fault with
  | some fault => some (.ofUnprinted connecting.out fault)
  | none =>
    let (result, _) :=
      (Scenario.start c s.files).run [Operation.echo greeting, Operation.pid] s.script
    match result.replies with
    | [some echo, some process] =>
      some (.ofReplies s.print s.signal connecting.out (Operation.echoed echo)
        (Operation.processNumber process))
    | _ => none

/-- What a run does before it connects: it ends with a report, or has a configuration. -/
def prepare (directory : String) (read : String → Except IoFault (List UInt8))
    (arguments : List String) : Except Report Config :=
  match Invocation.ofArguments arguments with
  | .error fault => .error (.ofUsageFault fault)
  | .ok (.inquire inquiry) => .error (.ofInquiry inquiry)
  | .ok (.run options) =>
    match configure directory read options with
    | none => .error .missingProgram
    | some (.error failure) => .error (.ofFailure failure)
    | some (.ok config) => .ok config

/-- A run of the program; `none` if it never ends. -/
def run (s : Surroundings) (arguments : List String) : Option Report :=
  match prepare s.temporaryDirectory s.files.read arguments with
  | .error report => some report
  | .ok config => ask s config

end EnvelopeClient.Control
