import EnvelopeClient.Toml.Cursor

/-!
# Strings

Four kinds of strings: in double quotes with escapes, in single quotes as they are, and either on
several lines between three quotes. In the last two the line end behind the opening quotes does not
count, and one or two quotes may stand anywhere, even right in front of the closing ones.
-/

namespace EnvelopeClient.Toml

open Grammar

/-- The value of a digit in base sixteen. -/
def hexDigit? (x : Char) : Option Nat :=
  if '0' ≤ x && x ≤ '9' then some (x.toNat - '0'.toNat)
  else if 'a' ≤ x && x ≤ 'f' then some (x.toNat - 'a'.toNat + 10)
  else if 'A' ≤ x && x ≤ 'F' then some (x.toNat - 'A'.toNat + 10)
  else none

namespace Grammar

/-- So many digits in base sixteen, put behind a number. -/
def hexDigits : Nat → Nat → Grammar Nat
  | 0, value => pure value
  | count + 1, value => do
    let x ← satisfy fun x => (hexDigit? x).isSome
    hexDigits count (16 * value + (hexDigit? x).getD 0)

/-- A character by its code point, which must be one that a character can have. -/
def codePoint (digits : Nat) : Grammar Char := do
  let value ← hexDigits digits 0
  require (value.isValidChar)
  return Char.ofNat value

/-- What follows a backslash. -/
def escaped : Grammar Char := do
  match ← satisfy fun _ => true with
  | 'b' => pure '\x08'
  | 't' => pure '\t'
  | 'n' => pure '\n'
  | 'f' => pure '\x0c'
  | 'r' => pure '\r'
  | '"' => pure '"'
  | '\\' => pure '\\'
  | 'u' => codePoint 4
  | 'U' => codePoint 8
  | _ => failure

/-- An escaped character. -/
def escape : Grammar (List Char) := do
  char '\\'
  let x ← escaped
  return [x]

/-- Whether a character stands for itself between double quotes. -/
def isBasic (x : Char) : Bool := isPlain x && x ≠ '"' && x ≠ '\\'

/-- Whether a character stands for itself between single quotes. -/
def isRaw (x : Char) : Bool := isPlain x && x ≠ '\''

/-- A string in double quotes. -/
def basicString : Grammar (List Char) := do
  char '"'
  let parts ← many (run1 isBasic <|> escape)
  char '"'
  return parts.flatten

/-- A string in single quotes. -/
def rawString : Grammar (List Char) := do
  char '\''
  let text ← run isRaw
  char '\''
  return text

/-- A line end within a string of several lines. -/
def innerNewline : Grammar (List Char) := do
  newline
  return ['\n']

/-- A backslash at the end of a line takes it out, together with all blanks and line ends that
follow. -/
def joinedLines : Grammar (List Char) := do
  char '\\'
  blanks
  newline
  let _ ← many (newline <|> (do let _ ← run1 fun x => x = ' ' || x = '\t'))
  return []

/-- One or two quotes in front of something. -/
def quotesBefore (quote : Char) (following : Grammar Unit) : Grammar (List Char) :=
  (do char quote; char quote; ahead following; return [quote, quote]) <|>
    (do char quote; ahead following; return [quote])

/-- Three quotes. -/
def tripleQuote (quote : Char) : Grammar Unit := do
  char quote
  char quote
  char quote

/-- A string on several lines, of pieces that hold none of its quotes. -/
def multiline (quote : Char) (piece : Grammar (List Char)) : Grammar (List Char) := do
  tripleQuote quote
  let _ ← optional newline
  let other : Grammar Unit := do
    let _ ← satisfy (· ≠ quote)
  let parts ← many (piece <|> quotesBefore quote other)
  let last ← optional (quotesBefore quote (tripleQuote quote))
  tripleQuote quote
  return parts.flatten ++ last.getD []

/-- A string of any kind. -/
def string : Grammar (List Char) :=
  multiline '"' (run1 isBasic <|> joinedLines <|> escape <|> innerNewline) <|>
    basicString <|>
    multiline '\'' (run1 isRaw <|> innerNewline) <|>
    rawString

end Grammar

end EnvelopeClient.Toml
