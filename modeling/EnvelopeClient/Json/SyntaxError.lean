/-!
# Why a text is not a JSON document

A text that stops inside a document is `Unfinished`; one that no continuation can repair has a
`Fault`. Either is reported with the `Position` up to which the text was read: lines are counted
from one, and the column is the number of bytes since the last line break.
-/

namespace EnvelopeClient.Json

/-- What was still being read when the text ended. -/
inductive Unfinished where
  | value
  | list
  | object
  | string
  deriving DecidableEq, Repr

/-- A violation of the grammar or of a limit. -/
inductive Fault where
  | expectedIdent
  | expectedValue
  | expectedListCommaOrEnd
  | expectedObjectCommaOrEnd
  | expectedColon
  | trailingComma
  | keyNotString
  | invalidNumber
  | numberOutOfRange
  | recursionLimit
  | controlCharacter
  | invalidEscape
  | loneSurrogate
  | unexpectedEndOfHexEscape
  /-- A string whose last `beyond` bytes start with something that is not a character. -/
  | invalidCodePoint (beyond : Nat)
  | trailingCharacters
  deriving DecidableEq, Repr

/-- The wording of an ending inside a document. -/
def Unfinished.message : Unfinished → String
  | .value => "EOF while parsing a value"
  | .list => "EOF while parsing a list"
  | .object => "EOF while parsing an object"
  | .string => "EOF while parsing a string"

/-- The wording of a fault. -/
def Fault.message : Fault → String
  | .expectedIdent => "expected ident"
  | .expectedValue => "expected value"
  | .expectedListCommaOrEnd => "expected `,` or `]`"
  | .expectedObjectCommaOrEnd => "expected `,` or `\x7d`"
  | .expectedColon => "expected `:`"
  | .trailingComma => "trailing comma"
  | .keyNotString => "key must be a string"
  | .invalidNumber => "invalid number"
  | .numberOutOfRange => "number out of range"
  | .recursionLimit => "recursion limit exceeded"
  | .controlCharacter => "control character (\\u0000-\\u001F) found while parsing a string"
  | .invalidEscape => "invalid escape"
  | .loneSurrogate => "lone leading surrogate in hex escape"
  | .unexpectedEndOfHexEscape => "unexpected end of hex escape"
  | .invalidCodePoint _ => "invalid unicode code point"
  | .trailingCharacters => "trailing characters"

/-- A place in a text. -/
structure Position where
  /-- Lines up to and including this one. -/
  line : Nat
  /-- Bytes of this line before the place. -/
  column : Nat
  deriving DecidableEq, Repr

/-- The start of a text. -/
def Position.start : Position := ⟨1, 0⟩

/-- The position behind one more byte. -/
def Position.next (p : Position) (b : UInt8) : Position :=
  if b = 0x0a then ⟨p.line + 1, 0⟩ else ⟨p.line, p.column + 1⟩

/-- The position behind some bytes. -/
def Position.after (bytes : List UInt8) : Position :=
  bytes.foldl Position.next .start

/-- Why a text is no document, and where that showed. -/
structure SyntaxError where
  /-- The wording of the cause. -/
  cause : String
  /-- Where the text was found wrong. -/
  position : Position

/-- The ending of a text inside a document, which shows behind its last byte. -/
def SyntaxError.ofUnfinished (bytes : List UInt8) (what : Unfinished) : SyntaxError :=
  ⟨what.message, .after bytes⟩

/-- A fault that showed after `index` bytes. A string that is not well-formed is reported at its
first bad byte, as far back on the line as the string's own length allows. -/
def SyntaxError.ofFault (bytes : List UInt8) (fault : Fault) (index : Nat) : SyntaxError :=
  let position := Position.after (bytes.take index)
  match fault with
  | .invalidCodePoint beyond =>
    ⟨fault.message, ⟨position.line, position.column - beyond⟩⟩
  | _ => ⟨fault.message, position⟩

/-- The wording of a syntax error. -/
def SyntaxError.message (e : SyntaxError) : String :=
  s!"{e.cause} at line {e.position.line} column {e.position.column}"

end EnvelopeClient.Json
