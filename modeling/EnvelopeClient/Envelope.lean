import EnvelopeClient.Failure
import EnvelopeClient.Json.Shape

/-!
# Envelopes

The one message of the wire, the same in both directions: an event tag and data. Its text is a
compact object with the members `event` and `data` in this order. On reading, an object needs an
`event` and may lack `data`; an array of the tag and the data is taken as well.
-/

namespace EnvelopeClient

open Json

/-- A tagged message. -/
structure Envelope where
  event : String
  data : Value

instance : Inhabited Envelope := ⟨⟨"", .null⟩⟩

namespace Envelope

/-- The tag with which a server reports a request it could not answer. -/
def errorEvent : String := "error"

/-- What a document is compared to when it is no envelope. -/
def expectation : String := "struct Envelope"

/-- Reads the envelope of an object's members. -/
def ofMembers (members : Members) : Except Mismatch Envelope :=
  match members.get? "event" with
  | none => .error (.missing "event")
  | some event => do
    let tag ← event.asString
    return ⟨tag, (members.get? "data").getD .null⟩

/-- Reads the envelope of an array's items: the tag, then the data. -/
def ofItems : List Value → Except Mismatch Envelope
  | [] => .error (.tooShort 0 s!"{expectation} with 2 elements")
  | [event] => do
    return ⟨← event.asString, .null⟩
  | [event, data] => do
    return ⟨← event.asString, data⟩
  | event :: data :: more => do
    let _ ← event.asString
    .error (.tooLong (more.length + [event, data].length))

/-- The envelope a document is. -/
def read : Value → Except Mismatch Envelope
  | .object members => ofMembers members
  | .array items => ofItems items
  | v => .error (.kind v expectation)

/-- `read`, with the mismatch as a failure. -/
def ofValue (v : Value) : Except Failure Envelope :=
  match read v with
  | .ok envelope => .ok envelope
  | .error mismatch => .error (.protocol s!"not an envelope: {mismatch.message}")

/-- The text of an envelope. -/
def text (e : Envelope) : String :=
  let opening := pushChars "" "\x7b\"event\":".toList
  (pushValue (pushString opening e.event ++ ",\"data\":") e.data).push '\x7d'

/-- The bytes of an envelope on the wire. -/
def toBytes (e : Envelope) : List UInt8 :=
  Utf8.encode e.text

theorem toList_text (e : Envelope) :
    e.text.toList =
      '\x7b' :: ("\"event\":".toList ++ stringText e.event ++ ",\"data\":".toList ++
        e.data.chars ++ ['\x7d']) := by
  simp [text, pushValue_eq, toList_pushString, toList_pushChars]

end Envelope

end EnvelopeClient
