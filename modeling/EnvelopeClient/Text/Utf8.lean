/-!
# Text as bytes

`encode` gives the bytes of a text and `decode?` reads them back; a sequence that is not UTF-8 has
no text. `validLength` tells how many leading bytes are whole, well-formed characters, by the
table of well-formed byte sequences: a lead byte fixes how many bytes follow and the range of the
first of them, which rules out overlong forms, surrogates and code points past the last one.
-/

namespace EnvelopeClient.Utf8

/-- The bytes of a text. -/
def encode (s : String) : List UInt8 :=
  s.toByteArray.data.toList

/-- The text whose bytes these are, if they are well-formed. -/
def decode? (bytes : List UInt8) : Option String :=
  String.fromUTF8? ⟨bytes.toArray⟩

theorem decode?_encode (s : String) : decode? (encode s) = some s := by
  have h : (⟨(encode s).toArray⟩ : ByteArray) = s.toByteArray := by simp [encode]
  simp only [decode?, h, String.fromUTF8?, s.isValidUTF8, dite_true]
  rfl

/-- What a lead byte promises: how many bytes follow it, and the bounds of the first of them. -/
structure Tail where
  /-- Bytes still owed. -/
  owed : Nat
  /-- Least value of the next byte. -/
  low : UInt8
  /-- Greatest value of the next byte. -/
  high : UInt8

/-- The tail a byte in lead position asks for, or `none` where it can lead nothing. -/
def Tail.ofLead? (b : UInt8) : Option Tail :=
  if b < 0x80 then some ⟨0, 0x80, 0xBF⟩
  else if b < 0xC2 then none
  else if b < 0xE0 then some ⟨1, 0x80, 0xBF⟩
  else if b = 0xE0 then some ⟨2, 0xA0, 0xBF⟩
  else if b = 0xED then some ⟨2, 0x80, 0x9F⟩
  else if b < 0xF0 then some ⟨2, 0x80, 0xBF⟩
  else if b = 0xF0 then some ⟨3, 0x90, 0xBF⟩
  else if b < 0xF4 then some ⟨3, 0x80, 0xBF⟩
  else if b = 0xF4 then some ⟨3, 0x80, 0x8F⟩
  else none

/-- `validLength` part way: `whole` bytes of finished characters, then `part` bytes of a character
that still owes `tail`. -/
def validLengthFrom (whole part : Nat) (tail : Tail) : List UInt8 → Nat
  | [] => if tail.owed = 0 then whole + part else whole
  | b :: rest =>
    if tail.owed = 0 then
      match Tail.ofLead? b with
      | none => whole + part
      | some next => validLengthFrom (whole + part) 1 next rest
    else if tail.low ≤ b && b ≤ tail.high then
      validLengthFrom whole (part + 1) ⟨tail.owed - 1, 0x80, 0xBF⟩ rest
    else whole

/-- The length of the longest prefix made of whole, well-formed characters. -/
def validLength (bytes : List UInt8) : Nat :=
  validLengthFrom 0 0 ⟨0, 0x80, 0xBF⟩ bytes

end EnvelopeClient.Utf8
