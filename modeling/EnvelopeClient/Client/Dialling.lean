import EnvelopeClient.Client.Basic
import EnvelopeClient.Files

/-!
# Dialling a socket

What stands between a socket path and a connection: the path has to be one a socket can have, and
somebody has to listen there.
-/

namespace EnvelopeClient

/-- Why a socket cannot be dialled. -/
inductive DialFault where
  /-- The path holds a NUL character. -/
  | interiorNul
  /-- The path is longer than the address of a socket can hold. -/
  | nameTooLong
  | system (fault : IoFault)

namespace DialFault

/-- The failure of a dial. -/
def toFailure (path : String) : DialFault → Failure
  | .interiorNul =>
    .connect s!"invalid socket path '{path}': filesystem paths cannot contain interior nuls"
  | .nameTooLong =>
    .connect
      (s!"cannot connect to '{path}': " ++
        "local socket name length exceeds capacity of sun_path of sockaddr_un")
  | .system fault => .connect s!"cannot connect to '{path}': {fault.text}"

end DialFault

/-- The greatest length of a socket path in bytes: the address has room for 108, one of which ends
the path. -/
def socketPathLimit : Nat := 107

/-- The fault of a path that no socket can have. -/
def pathFault? (path : String) : Option DialFault :=
  if path.toList.contains '\x00' then some .interiorNul
  else if socketPathLimit < path.utf8ByteSize then some .nameTooLong
  else none

/-- Dials a socket of a file tree; a listener takes every connection. -/
def Files.dial (files : Files) (path : String) : Except DialFault Unit :=
  match pathFault? path with
  | some fault => .error fault
  | none =>
    match files.find path with
    | .ok (.socket true) => .ok ()
    | .ok _ => .error (.system (.ofNumber 111))
    | .error fault => .error (.system fault)

/-- The answer a client gets when it dials; a socket has room for all that is written. -/
def Dial.ofResult (path : String) : Except DialFault Unit → Dial
  | .ok () => .accepted none
  | .error fault => .failed (fault.toFailure path)

end EnvelopeClient
