import EnvelopeClient.Proofs.Frame.Drain
import EnvelopeClient.Proofs.Json.Front

/-!
# Which documents are messages

`Envelope.Denoted` says what a message is without a reader: an object whose member `event` is a
string, or an array of a string and at most one more item. Reading a document as an envelope agrees
with it on every value (`Envelope.ofValue_denoted`), and so does decoding at the front of a buffer,
which takes off that document with the blanks before it and nothing else (`decode_denoted`).
-/

namespace EnvelopeClient

open Json

namespace Envelope

/-- A value is a message. Other members of an object do not matter, and data that is missing is
null. -/
inductive Denoted : Value → Envelope → Prop where
  | object {members : Members} {event : String}
      (hevent : members.get? "event" = some (.string event)) :
      Denoted (.object members) ⟨event, (members.get? "data").getD .null⟩
  /-- An array is read by the places of its items. -/
  | tag (event : String) : Denoted (.array [.string event]) ⟨event, .null⟩
  | pair (event : String) (data : Value) : Denoted (.array [.string event, data]) ⟨event, data⟩

variable {v : Value} {e : Envelope}

/-- What is made of a string is made of a string only. -/
theorem exists_string_of_bind {α : Type} {make : String → Except Mismatch α} {a : α}
    (h : v.asString >>= make = .ok a) : ∃ s, v = .string s ∧ make s = .ok a := by
  cases v with
  | string s => exact ⟨s, rfl, h⟩
  | _ => cases h

/-- Whatever is read is the message the value is. -/
theorem denoted_of_read (h : read v = .ok e) : Denoted v e := by
  cases v with
  | object members =>
    rw [read, ofMembers] at h
    cases hevent : Members.get? members "event" with
    | none =>
      rw [hevent] at h
      cases h
    | some event =>
      rw [hevent] at h
      obtain ⟨s, rfl, hmade⟩ := exists_string_of_bind h
      cases hmade
      exact .object hevent
  | array items =>
    rw [read] at h
    match items with
    | [] => cases h
    | [event] =>
      obtain ⟨s, rfl, hmade⟩ := exists_string_of_bind h
      cases hmade
      exact .tag s
    | [event, data] =>
      obtain ⟨s, rfl, hmade⟩ := exists_string_of_bind h
      cases hmade
      exact .pair s data
    | event :: data :: third :: more =>
      obtain ⟨s, rfl, hmade⟩ := exists_string_of_bind h
      cases hmade
  | _ => cases h

/-- A message is read from every value that is one. -/
theorem read_of_denoted (h : Denoted v e) : read v = .ok e := by
  cases h with
  | object hevent =>
    rw [read, ofMembers, hevent]
    rfl
  | tag event => rfl
  | pair event data => rfl

/-- Reading a value as an envelope finds the message the value is, and fails with the mismatch on
every other value. -/
theorem ofValue_denoted (v : Value) :
    (∀ e, ofValue v = .ok e ↔ Denoted v e) ∧
      ((∀ e, ¬Denoted v e) → ∃ mismatch : Mismatch,
        ofValue v = .error (.protocol s!"not an envelope: {mismatch.message}")) := by
  rw [ofValue]
  cases hread : read v with
  | ok found =>
    refine ⟨?_, fun hnone => absurd (denoted_of_read hread) (hnone found)⟩
    intro e
    constructor
    · intro h
      cases h
      exact denoted_of_read hread
    · intro h
      rw [read_of_denoted h] at hread
      cases hread
      rfl
  | error mismatch =>
    refine ⟨?_, fun _ => ⟨mismatch, rfl⟩⟩
    intro e
    constructor
    · intro h
      cases h
    · intro h
      rw [read_of_denoted h] at hread
      cases hread

end Envelope

namespace Frame

/-- **Which documents are messages.** Where a document is at the front of a buffer, decoding takes
off exactly that document and the blanks before it. It yields an envelope if and only if the
document is a message, and then that message; of any other document it reports that it is no
envelope. Reading a value by itself agrees on every value. -/
theorem decode_denoted (limit : Nat) {buffer rest : List UInt8} {v : Value}
    (h : Reading.front buffer = .complete v rest) :
    (∃ blanks text, buffer = blanks ++ (text ++ rest) ∧ Blank blanks ∧
      (∀ b ∈ text.head?, isBlank b = false) ∧ Reading.front text = .complete v []) ∧
    (∀ e, decode limit buffer = (some (.envelope e), rest) ↔ Envelope.Denoted v e) ∧
    ((∀ e, ¬Envelope.Denoted v e) → ∃ mismatch : Mismatch, decode limit buffer =
      (some (.malformed s!"protocol: not an envelope: {mismatch.message}"), rest)) ∧
    ∀ w, (∀ e, Envelope.ofValue w = .ok e ↔ Envelope.Denoted w e) ∧
      ((∀ e, ¬Envelope.Denoted w e) → ∃ mismatch : Mismatch,
        Envelope.ofValue w = .error (.protocol s!"not an envelope: {mismatch.message}")) := by
  obtain ⟨hdenoted, hother⟩ := Envelope.ofValue_denoted v
  refine ⟨exists_text_of_front h, ?_, ?_, Envelope.ofValue_denoted⟩
  · intro e
    rw [decode_of_complete h, ofDocument, ← hdenoted e]
    cases hvalue : Envelope.ofValue v with
    | ok found => simp
    | error failure => simp
  · intro hnone
    obtain ⟨mismatch, hvalue⟩ := hother hnone
    refine ⟨mismatch, ?_⟩
    rw [decode_of_complete h, ofDocument, hvalue]
    rfl

/-- A number behind a blank, and the message behind it. -/
def numbered : List UInt8 := Utf8.encode " 7 [\"a\",1]"

/-- The number is reported and taken off with the blank, and the array behind it is a message. -/
theorem decode_denoted_number :
    (∃ mismatch : Mismatch, decode 64 numbered =
      (some (.malformed s!"protocol: not an envelope: {mismatch.message}"),
        Utf8.encode " [\"a\",1]")) ∧
    decode 64 (Utf8.encode " [\"a\",1]") = (some (.envelope ⟨"a", .int 1⟩), []) := by
  have hnumber : Reading.front numbered = .complete (.int 7) (Utf8.encode " [\"a\",1]") := rfl
  have hpair : Reading.front (Utf8.encode " [\"a\",1]") =
      .complete (.array [.string "a", .int 1]) [] := rfl
  obtain ⟨-, -, hother, -⟩ := decode_denoted 64 hnumber
  obtain ⟨-, hmessage, -⟩ := decode_denoted 64 hpair
  refine ⟨hother ?_, (hmessage _).mpr (.pair "a" (.int 1))⟩
  intro e hdenoted
  cases hdenoted

/-- Not every message is an object. -/
theorem array_is_message :
    ¬∀ (limit : Nat) (buffer rest : List UInt8) (v : Value) (e : Envelope),
      Reading.front buffer = .complete v rest →
      decode limit buffer = (some (.envelope e), rest) → ∃ members, v = .object members := by
  intro h
  have hfront : Reading.front (Utf8.encode "[\"a\",1]") =
      .complete (.array [.string "a", .int 1]) [] := rfl
  have hdecode : decode 64 (Utf8.encode "[\"a\",1]") = (some (.envelope ⟨"a", .int 1⟩), []) :=
    decode_of_complete hfront 64
  obtain ⟨members, hobject⟩ := h 64 _ _ _ _ hfront hdecode
  cases hobject

end Frame

end EnvelopeClient
