import EnvelopeClient.Frame.Decoder
import EnvelopeClient.Proofs.Json.Document
import EnvelopeClient.Proofs.Json.RoundTrip

/-!
# The text of a message

The text of an envelope whose data travels is an object document (`Envelope.document_toBytes`), and
the frame of that document is the envelope (`Frame.ofDocument_document`).
-/

namespace EnvelopeClient

open Json Utf8

namespace Envelope

/-- The members of an envelope, as they are written. -/
def members (e : Envelope) : List (String × Value) :=
  [("event", .string e.event), ("data", e.data)]

/-- The text of an envelope is that of an object with its members, out of their order. -/
theorem toList_text_eq (e : Envelope) : e.text.toList = (Value.object e.members).chars := by
  have hevent : stringText "event" = "\"event\"".toList := by decide
  have hdata : stringText "data" = "\"data\"".toList := by decide
  rw [toList_text]
  simp [members, memberChars, Value.chars, hevent, hdata]

theorem toBytes_eq (e : Envelope) :
    e.toBytes = 0x7b :: (bytes (memberChars e.members) ++ [0x7d]) := by
  rw [toBytes, encode_eq_bytes, toList_text_eq, State.bytes_object]

theorem toBytes_ne_nil (e : Envelope) : e.toBytes ≠ [] := by
  rw [toBytes_eq]
  simp

/-- Read back, the members stand in their order. -/
theorem ofList_members (e : Envelope) :
    Members.ofList e.members = [("data", e.data), ("event", .string e.event)] := by
  have hlt : "data" < "event" := by decide
  simp [members, Members.ofList, Members.insert, hlt]

/-- The document an envelope is written as. -/
def document (e : Envelope) : Value := .object [("data", e.data), ("event", .string e.event)]

/-- The text of an envelope is that document. -/
theorem document_toBytes {e : Envelope} (h : e.data.Travels) : Document e.toBytes e.document := by
  have hcanonical : Value.CanonicalMembers e.members := ⟨trivial, h.canonical, trivial⟩
  have hfloat : Value.membersFloatFree e.members = true := by
    simp [members, Value.membersFloatFree, Value.isFloatFree, h.floatFree]
  have hdepth : Value.membersDepth e.members < depthLimit := by
    simp only [members, Value.membersDepth, Value.depth, Nat.max_zero, Nat.zero_max]
    exact h.shallow
  obtain ⟨t, hpass, hstep⟩ := passes_document (by simp [members]) hcanonical hfloat hdepth
  rw [ofList_members] at hstep
  rw [e.toBytes_eq]
  exact .of_passes rfl hpass hstep

end Envelope

/-- The frame of an envelope's document is that envelope. -/
theorem Frame.ofDocument_document (e : Envelope) : ofDocument e.document = .envelope e := by
  rfl

end EnvelopeClient
