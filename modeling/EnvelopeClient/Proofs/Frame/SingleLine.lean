import EnvelopeClient.Proofs.Frame.Message
import EnvelopeClient.Proofs.Json.Boundaries
import EnvelopeClient.Proofs.Json.NoControl

/-!
# Each message on one line, and told apart from every other

Messages are sent one behind the other without a delimiter. What makes this work for any reader is a
property of their texts: none has a control character in it, so a message never breaks over lines,
and none is the beginning of another one (`written_on_one_line`). The text of a message tells where
it ends whatever stands behind (`toBytes_append_inj`). There is no limit to this: the data may nest
deeper than the decoder takes. Binary64 numbers are left out where messages are told apart.
-/

namespace EnvelopeClient

open Json Utf8

namespace Envelope

variable {e e' : Envelope}

theorem toBytes_eq_valueText (e : Envelope) : e.toBytes = valueText (.object e.members) := by
  rw [toBytes, encode_eq_bytes, toList_text_eq, valueText]

/-- No byte of a message is a control character. -/
theorem le_of_mem_toBytes {b : UInt8} (h : b ∈ e.toBytes) : 0x20 ≤ b := by
  rw [toBytes_eq_valueText] at h
  exact (noControl_chars _).le_of_mem_bytes h

theorem members_inj (h : e.members = e'.members) : e = e' := by
  cases e
  cases e'
  simpa [members] using h

theorem isFloatFree_of_mem_members (h : e.data.isFloatFree = true) :
    ∀ m ∈ e.members, m.2.isFloatFree = true := by
  simp [members, Value.isFloatFree, h]

/-- Messages are told apart by their texts, whatever stands behind. -/
theorem toBytes_append_inj {p q : List UInt8} (he : e.data.isFloatFree = true)
    (he' : e'.data.isFloatFree = true) (h : e.toBytes ++ p = e'.toBytes ++ q) :
    e = e' ∧ p = q := by
  rw [toBytes_eq_valueText, toBytes_eq_valueText] at h
  obtain ⟨hmembers, hrest⟩ := object_append_inj (isFloatFree_of_mem_members he)
    (isFloatFree_of_mem_members he') h
  exact ⟨members_inj hmembers, hrest⟩

theorem eq_of_begins (he : e.data.isFloatFree = true) (he' : e'.data.isFloatFree = true)
    (h : e.toBytes <+: e'.toBytes) : e = e' := by
  obtain ⟨rest, hrest⟩ := h
  rw [← List.append_nil e'.toBytes] at hrest
  exact (toBytes_append_inj he he' hrest).1

/-- **Messages are written on one line each, and none is the beginning of another.** Writing has no
failing case: whatever the tag and the data, the bytes are well-formed UTF-8 and decode to the
message's text, none of them is a control character, the first is an opening and the last a closing
brace. Of two different messages without binary64 numbers, neither text begins with the other. -/
theorem written_on_one_line (e : Envelope) :
    Utf8.decode? e.toBytes = some e.text ∧ (∀ b ∈ e.toBytes, 0x20 ≤ b) ∧
      e.toBytes.head? = some 0x7b ∧ e.toBytes.getLast? = some 0x7d ∧
      ∀ e' : Envelope, e.data.isFloatFree = true → e'.data.isFloatFree = true → e ≠ e' →
        ¬e.toBytes <+: e'.toBytes ∧ ¬e'.toBytes <+: e.toBytes := by
  refine ⟨decode?_encode e.text, fun b hb => le_of_mem_toBytes hb, ?_, ?_, ?_⟩
  · rw [toBytes_eq]
    rfl
  · rw [toBytes_eq, ← List.cons_append, List.getLast?_concat]
  · intro e' he he' hne
    exact ⟨fun h => hne (eq_of_begins he he' h),
      fun h => hne (eq_of_begins he' he h).symm⟩

/-- A message with a line break in its tag, and a quotation mark and a null character in a key of
its data. -/
def escaped (n : Int) : Envelope := ⟨"a\nb", .array [.object [("\"\x00", .int n)]]⟩

/-- Two such messages with integers of which the one begins with the other. -/
theorem written_on_one_line_escaped :
    (escaped 1).data.isFloatFree = true ∧ (escaped 12).data.isFloatFree = true ∧
      escaped 1 ≠ escaped 12 ∧ 0x0a ∉ (escaped 1).toBytes ∧
      ¬(escaped 1).toBytes <+: (escaped 12).toBytes := by
  have hne : escaped 1 ≠ escaped 12 := by
    intro h
    simp [escaped, Value.int] at h
  obtain ⟨-, hcontrol, -, -, hbegins⟩ := written_on_one_line (escaped 1)
  refine ⟨rfl, rfl, hne, ?_, (hbegins (escaped 12) rfl rfl hne).1⟩
  intro hmem
  exact absurd (hcontrol 0x0a hmem) (by decide)

end Envelope

end EnvelopeClient
