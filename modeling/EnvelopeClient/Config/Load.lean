import EnvelopeClient.Config.Schema
import EnvelopeClient.Failure
import EnvelopeClient.Files
import EnvelopeClient.Text.Utf8
import EnvelopeClient.Toml.Reader
import EnvelopeClient.Toml.Report

/-!
# Loading a configuration

From a text, and from a file. A configuration is valid if its socket path is not empty.
-/

namespace EnvelopeClient.Config

/-- A configuration that can be used. -/
def validate (c : Config) : Except Failure Config :=
  if c.socketPath.isEmpty then .error (.config "socket_path must not be empty") else .ok c

/-- The failure of a text that is no configuration. -/
def invalid (reason : String) : Failure := .config s!"invalid config: {reason}"

/-- The configuration the tree of a text says. The text is only shown where there is a fault. -/
def ofTree (text : String) (table : Toml.Table) : Except Failure Config :=
  match ofTable table with
  | .ok c => c.validate
  | .error f => .error (invalid (Toml.report text (f.span.getD ⟨0, 0⟩) f.fault.message))

/-- The configuration a text says. -/
def ofText (text : String) : Except Failure Config :=
  match Toml.Table.ofText text with
  | none => .error (invalid Toml.reportTitle)
  | some table => ofTree text table

/-- The configuration a file holds. -/
def ofFile (content : Except IoFault (List UInt8)) : Except Failure Config :=
  match content with
  | .error fault => .error (.config s!"failed to read config: {fault.text}")
  | .ok bytes =>
    match Utf8.decode? bytes with
    | none => .error (.config "failed to read config: stream did not contain valid UTF-8")
    | some text => ofText text

/-- Loads the configuration at a path. -/
def load (files : Files) (path : String) : Except Failure Config :=
  ofFile (files.read path)

end EnvelopeClient.Config
