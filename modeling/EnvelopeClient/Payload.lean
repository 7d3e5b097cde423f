import EnvelopeClient.Json.Value

/-!
# Payloads

What a caller may hand over to be sent. A payload is richer than JSON; `Payload.toValue` gives its
JSON value where it has one. Integers beyond 64 bits have none, and neither have maps whose keys
cannot be written as strings. Numbers that are not finite become null.
-/

namespace EnvelopeClient

open Json

/-- A value to be sent. -/
inductive Payload where
  | none
  | bool (b : Bool)
  | int (n : Int)
  | float (x : Float)
  | single (x : Float32)
  | char (c : Char)
  | string (s : String)
  /-- A value that might have been absent. -/
  | some (p : Payload)
  | list (items : List Payload)
  | map (entries : List (Payload × Payload))
  /-- A value that is JSON already. -/
  | json (v : Value)

/-- Why a payload has no JSON value. -/
inductive PayloadFault where
  | numberOutOfRange
  | keyNotString
  deriving DecidableEq, Repr

/-- The wording of a payload's fault. -/
def PayloadFault.message : PayloadFault → String
  | .numberOutOfRange => "number out of range"
  | .keyNotString => "key must be a string"

namespace Payload

/-- The JSON value of a binary64 number. -/
def ofFloat (x : Float) : Value :=
  if x.isFinite then .number (.float x) else .null

/-- The string a payload is as the key of a map. -/
def key : Payload → Except PayloadFault String
  | .string s => .ok s
  | .char c => .ok c.toString
  | .bool b => .ok (if b then "true" else "false")
  | .int n => .ok (toString n)
  | .json (.string s) => .ok s
  | _ => .error .keyNotString

mutual

/-- The JSON value of a payload. -/
def toValue : Payload → Except PayloadFault Value
  | .none => .ok .null
  | .bool b => .ok (.bool b)
  | .int n => if fitsInteger n then .ok (.int n) else .error .numberOutOfRange
  | .float x => .ok (ofFloat x)
  | .single x => .ok (ofFloat x.toFloat)
  | .char c => .ok (.string c.toString)
  | .string s => .ok (.string s)
  | .some p => p.toValue
  | .list items => Value.array <$> valuesOf items
  | .map entries => (fun members => Value.object (Members.ofList members)) <$> membersOf entries
  | .json v => .ok v

/-- The JSON values of a list's items. -/
def valuesOf : List Payload → Except PayloadFault (List Value)
  | [] => .ok []
  | p :: rest => do
    let v ← p.toValue
    let vs ← valuesOf rest
    return v :: vs

/-- The members of a map. -/
def membersOf : List (Payload × Payload) → Except PayloadFault (List (String × Value))
  | [] => .ok []
  | (k, p) :: rest => do
    let name ← k.key
    let v ← p.toValue
    let members ← membersOf rest
    return (name, v) :: members

end

end Payload

end EnvelopeClient
