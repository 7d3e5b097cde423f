import EnvelopeClient.Control.Basic

/-!
# The control program as a command

The outer layer: it takes the arguments, the environment and the configuration file from the
system and prints the report. It has no sockets of its own; a path where something is counts as a
socket on which nobody listens.
-/

namespace EnvelopeClient.Control

/-- The fault of a file operation. -/
def faultOf : IO.Error → IoFault
  | .noFileOrDirectory _ _ _ => .ofNumber 2
  | error => ⟨.other, toString error⟩

/-- The content of a file. -/
def readFile (path : String) : IO (Except IoFault (List UInt8)) :=
  tryCatch (do
    let content ← IO.FS.readBinFile path
    return .ok content.toList) fun error => return .error (faultOf error)

/-- What the arguments' configuration file holds. -/
def readConfigured (arguments : List String) : IO (Except IoFault (List UInt8)) :=
  match Invocation.ofArguments arguments with
  | .ok (.run options) =>
    match options.config with
    | some path => readFile path
    | none => return .error (.ofNumber 2)
  | _ => return .error (.ofNumber 2)

/-- Why a socket cannot be dialled. -/
def dialFault (path : String) : IO DialFault := do
  match pathFault? path with
  | some fault => return fault
  | none =>
    match ← readFile path with
    | .error fault => return .system (if fault.kind = .notFound then fault else .ofNumber 111)
    | .ok _ => return .system (.ofNumber 111)

/-- A run of the program. -/
def runCommand (arguments : List String) : IO Report := do
  let directory := (← IO.getEnv "TMPDIR").getD SocketPath.defaultDirectory
  let content ← readConfigured arguments
  match prepare directory (fun _ => content) arguments with
  | .error report => return report
  | .ok config =>
    let failure := (← dialFault config.socketPath).toFailure config.socketPath
    return .ofReplies Printing.whole (fun _ => none) (Report.connectingLine config.socketPath)
      (.error failure) (.error failure)

end EnvelopeClient.Control

/-- The control program. -/
def main (arguments : List String) : IO UInt32 := do
  let report ← EnvelopeClient.Control.runCommand arguments
  IO.print report.stdout
  IO.eprint report.stderr
  return report.exitCode.toUInt32
