/-!
# Failures

Every operation of the client fails in one of seven ways. A `Failure` carries its kind and the
reason; its message is the reason behind a word for the kind.
-/

namespace EnvelopeClient

/-- Why an operation failed. -/
inductive Failure where
  /-- The socket path is unusable, or nothing accepts connections there. -/
  | connect (reason : String)
  /-- A payload, reply or inbound message is not what it should be. -/
  | protocol (reason : String)
  /-- The connection is not open, or closed before a reply came. -/
  | notConnected (reason : String)
  /-- A deadline elapsed. -/
  | timeout (reason : String)
  /-- The server answered with an error message. -/
  | remote (reason : String)
  /-- The configuration cannot be read or is not valid. -/
  | config (reason : String)
  /-- Any other trouble with the transport. -/
  | io (reason : String)
  deriving DecidableEq, Repr

namespace Failure

/-- The word that names a failure's kind. -/
def label : Failure → String
  | .connect _ => "connect"
  | .protocol _ => "protocol"
  | .notConnected _ => "not connected"
  | .timeout _ => "timeout"
  | .remote _ => "remote"
  | .config _ => "config"
  | .io _ => "io"

/-- The reason without the word for the kind. -/
def reason : Failure → String
  | .connect r | .protocol r | .notConnected r | .timeout r | .remote r | .config r | .io r => r

/-- The message of a failure. -/
def message (f : Failure) : String :=
  f.label ++ ": " ++ f.reason

/-- Whether the failure says that the connection is gone. -/
def isNotConnected : Failure → Bool
  | .notConnected _ => true
  | _ => false

end Failure

end EnvelopeClient
