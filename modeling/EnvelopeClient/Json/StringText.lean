import EnvelopeClient.Json.SyntaxError
import EnvelopeClient.Text.Utf8

/-!
# String texts

The inside of a string, read one byte at a time from behind the opening quotation mark. Bytes are
collected as they are and escapes as the bytes of their character; only the closing quotation mark
asks whether the whole is well-formed. The four bytes of a `\u` escape are looked at together, and
two such escapes may name the halves of one character.
-/

namespace EnvelopeClient.Json

/-- Where in a string the reader stands. -/
inductive Spot where
  /-- Between characters. -/
  | plain
  /-- Behind a backslash. -/
  | escape
  /-- In a `\u` escape, behind these bytes, the newest first. -/
  | unit (digits : List UInt8)
  /-- Behind the first half of a character, at the backslash of the second. -/
  | pairBackslash (high : Nat)
  /-- Behind the first half of a character, at the `u` of the second. -/
  | pairMark (high : Nat)
  /-- In the second half's `\u` escape, behind these bytes, the newest first. -/
  | pairUnit (high : Nat) (digits : List UInt8)

/-- A string part way: its bytes so far, the newest first, and the reader's place. -/
structure StringText where
  content : List UInt8
  spot : Spot

/-- What one more byte does to a string. -/
inductive StringStep where
  | more (s : StringText)
  /-- The string ended with this byte. -/
  | closed (s : String)
  | broken (fault : Fault)

/-- The value of a hexadecimal digit. -/
def hexDigit? (b : UInt8) : Option Nat :=
  if 0x30 ≤ b && b ≤ 0x39 then some (b.toNat - 0x30)
  else if 0x61 ≤ b && b ≤ 0x66 then some (b.toNat - 0x61 + 10)
  else if 0x41 ≤ b && b ≤ 0x46 then some (b.toNat - 0x41 + 10)
  else none

/-- The unit named by hexadecimal digits, the newest first. -/
def hexUnit? : List UInt8 → Option Nat
  | [] => some 0
  | b :: older => do
    let high ← hexUnit? older
    let low ← hexDigit? b
    return high * 16 + low

/-- The byte a one-letter escape stands for. -/
def simpleEscape? (b : UInt8) : Option UInt8 :=
  if b = 0x22 then some 0x22
  else if b = 0x5c then some 0x5c
  else if b = 0x2f then some 0x2f
  else if b = 0x62 then some 0x08
  else if b = 0x66 then some 0x0c
  else if b = 0x6e then some 0x0a
  else if b = 0x72 then some 0x0d
  else if b = 0x74 then some 0x09
  else none

/-- Whether a unit is the first half of a character. -/
def isHighHalf (unit : Nat) : Bool := 0xD800 ≤ unit && unit ≤ 0xDBFF

/-- Whether a unit is the second half of a character. -/
def isLowHalf (unit : Nat) : Bool := 0xDC00 ≤ unit && unit ≤ 0xDFFF

namespace StringText

/-- The inside of a string, before its first byte. -/
def empty : StringText := ⟨[], .plain⟩

/-- Adds a character given by its code point. -/
def pushCode (content : List UInt8) (code : Nat) : StringText :=
  ⟨(Utf8.encode (Char.ofNat code).toString).reverseAux content, .plain⟩

/-- The string of a closed content. -/
def close (content : List UInt8) : StringStep :=
  let bytes := content.reverse
  match Utf8.decode? bytes with
  | some s => .closed s
  | none => .broken (.invalidCodePoint (bytes.length - Utf8.validLength bytes))

/-- Takes in the first or only unit of an escape. -/
def takeUnit (content : List UInt8) (digits : List UInt8) : StringStep :=
  match hexUnit? digits with
  | none => .broken .invalidEscape
  | some unit =>
    if isLowHalf unit then .broken .loneSurrogate
    else if isHighHalf unit then .more ⟨content, .pairBackslash unit⟩
    else .more (pushCode content unit)

/-- Takes in the second half of a character. -/
def takeLowHalf (content : List UInt8) (high : Nat) (digits : List UInt8) : StringStep :=
  match hexUnit? digits with
  | none => .broken .invalidEscape
  | some unit =>
    if isLowHalf unit then
      .more (pushCode content (0x10000 + (high - 0xD800) * 0x400 + (unit - 0xDC00)))
    else .broken .loneSurrogate

/-- Reads one byte. -/
def step (s : StringText) (b : UInt8) : StringStep :=
  match s.spot with
  | .plain =>
    if b = 0x22 then close s.content
    else if b = 0x5c then .more ⟨s.content, .escape⟩
    else if b < 0x20 then .broken .controlCharacter
    else .more ⟨b :: s.content, .plain⟩
  | .escape =>
    if b = 0x75 then .more ⟨s.content, .unit []⟩
    else
      match simpleEscape? b with
      | some c => .more ⟨c :: s.content, .plain⟩
      | none => .broken .invalidEscape
  | .unit digits =>
    if digits.length < 3 then .more ⟨s.content, .unit (b :: digits)⟩
    else takeUnit s.content (b :: digits)
  | .pairBackslash high =>
    if b = 0x5c then .more ⟨s.content, .pairMark high⟩ else .broken .unexpectedEndOfHexEscape
  | .pairMark high =>
    if b = 0x75 then .more ⟨s.content, .pairUnit high []⟩
    else .broken .unexpectedEndOfHexEscape
  | .pairUnit high digits =>
    if digits.length < 3 then .more ⟨s.content, .pairUnit high (b :: digits)⟩
    else takeLowHalf s.content high (b :: digits)

end StringText

end EnvelopeClient.Json
