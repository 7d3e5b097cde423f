import EnvelopeClient.Text.Quoted

/-!
# Client configuration

Where the server's socket is, how connections are used, and how long to wait. A time of zero
milliseconds is no limit.
-/

namespace EnvelopeClient

/-- How a client obtains connections. -/
inductive ConnectionMode where
  /-- A fresh connection for every request. -/
  | perRequest
  /-- One connection, used again while it stays open. -/
  | shared
  deriving DecidableEq, Repr

/-- The name of a mode in descriptions. -/
def ConnectionMode.name : ConnectionMode → String
  | .perRequest => "PerRequest"
  | .shared => "Shared"

/-- Time limits in milliseconds; zero is no limit. -/
structure Timeouts where
  /-- Limit on establishing a connection. -/
  connectMs : Nat
  /-- Limit on waiting for the reply to one request. -/
  requestMs : Nat
  deriving DecidableEq, Repr

namespace Timeouts

/-- No limits. -/
def none : Timeouts := ⟨0, 0⟩

/-- A number of milliseconds as a limit. -/
def limit? (ms : Nat) : Option Nat :=
  if 0 < ms then some ms else Option.none

/-- The limit on connecting, if there is one. -/
def connect? (t : Timeouts) : Option Nat := limit? t.connectMs

/-- The limit on a request, if there is one. -/
def request? (t : Timeouts) : Option Nat := limit? t.requestMs

/-- How time limits are shown to a developer. -/
def describe (t : Timeouts) : String :=
  s!"TimeoutConfig \x7b connect_ms: {t.connectMs}, request_ms: {t.requestMs} \x7d"

end Timeouts

/-- The configuration of a client. -/
structure Config where
  socketPath : String
  mode : ConnectionMode
  timeouts : Timeouts
  deriving DecidableEq, Repr

namespace Config

/-- A fresh connection for every request, and no limits. -/
def ofPath (socketPath : String) : Config := ⟨socketPath, .perRequest, .none⟩

/-- How a configuration is shown to a developer. -/
def describe (c : Config) : String :=
  "ClientConfig \x7b socket_path: " ++ Text.quoted c.socketPath ++ ", mode: " ++ c.mode.name ++
    ", timeouts: " ++ c.timeouts.describe ++ " \x7d"

end Config

end EnvelopeClient
