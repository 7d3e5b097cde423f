import EnvelopeClient.Toml.Item

/-!
# Reading a text from the front

A `Cursor` is what is left of a text and the number of bytes in front of it. A `Grammar` takes
something off the front or fails; alternatives start again from where they stood. Repetition is
bounded by the number of bytes left, which is enough for whatever takes a character each time.
-/

namespace EnvelopeClient.Toml

/-- What is left of a text. -/
structure Cursor where
  /-- Bytes in front of it. -/
  offset : Nat
  /-- Bytes of the whole text. -/
  size : Nat
  rest : List Char

/-- Takes something off the front of a text. -/
abbrev Grammar := StateT Cursor Option

/-- The start of a text. -/
def Cursor.ofText (text : String) : Cursor := ⟨0, text.utf8ByteSize, text.toList⟩

/-- Bytes left. -/
def Cursor.left (c : Cursor) : Nat := c.size - c.offset

/-- The bytes of some characters. -/
def byteCount (cs : List Char) : Nat :=
  cs.foldl (fun count x => count + x.utf8Size) 0

namespace Grammar

variable {α β : Type}

/-- The byte offset of the next character. -/
def offset : Grammar Nat := fun c => some (c.offset, c)

/-- One character of a class. -/
def satisfy (p : Char → Bool) : Grammar Char := fun c =>
  match c.rest with
  | x :: rest => if p x then some (x, { c with offset := c.offset + x.utf8Size, rest }) else none
  | [] => none

/-- One certain character. -/
def char (x : Char) : Grammar Unit := do
  let _ ← satisfy (· = x)

/-- A certain text. -/
def literal (s : String) : Grammar Unit :=
  s.toList.forM char

/-- As many characters of a class as there are. -/
def run (p : Char → Bool) : Grammar (List Char) := fun c =>
  let taken := c.rest.takeWhile p
  some (taken, { c with offset := c.offset + byteCount taken, rest := c.rest.dropWhile p })

/-- At least one character of a class. -/
def run1 (p : Char → Bool) : Grammar (List Char) := do
  let first ← satisfy p
  let more ← run p
  return first :: more

/-- The end of the text. -/
def finish : Grammar Unit := fun c => if c.rest.isEmpty then some ((), c) else none

/-- Something that may be missing. -/
def optional (p : Grammar α) : Grammar (Option α) :=
  (some <$> p) <|> pure none

/-- Something that follows, left where it is. -/
def ahead (p : Grammar α) : Grammar Unit := fun c => (p c).map fun _ => ((), c)

/-- `many` for at most so many times. -/
def manyFor (p : Grammar α) : Nat → Grammar (List α)
  | 0 => pure []
  | fuel + 1 =>
    (do
      let first ← p
      let more ← manyFor p fuel
      return first :: more) <|> pure []

/-- Something any number of times. -/
def many (p : Grammar α) : Grammar (List α) := fun c => manyFor p c.left c

/-- Something any number of times, with something else in between. -/
def separated (p : Grammar α) (separator : Grammar β) : Grammar (List α) :=
  (do
    let first ← p
    let more ← many (separator *> p)
    return first :: more) <|> pure []

/-- Something together with where it stands. -/
def spanned (p : Grammar α) : Grammar (Span × α) := do
  let start ← offset
  let found ← p
  let stop ← offset
  return (⟨start, stop⟩, found)

/-- Fails unless a condition holds. -/
def require (condition : Bool) : Grammar Unit :=
  if condition then pure () else failure

/-! ## Blanks, comments and line ends -/

/-- Blanks within a line. -/
def blanks : Grammar Unit := do
  let _ ← run fun x => x = ' ' || x = '\t'

/-- The end of a line. -/
def newline : Grammar Unit :=
  char '\n' <|> (char '\r' *> char '\n')

/-- Whether a character may stand in a comment: anything but control characters, of which the tab
is allowed. -/
def isPlain (x : Char) : Bool :=
  x = '\t' || (0x20 ≤ x.toNat && x.toNat ≠ 0x7f)

/-- A comment, up to the end of its line. -/
def comment : Grammar Unit := do
  char '#'
  let _ ← run isPlain

/-- What may stand between the items of an array: blanks, comments and line ends. -/
def gap : Grammar Unit := do
  blanks
  let _ ← many ((optional comment *> newline) *> blanks)

/-- The end of a line, or of the text. -/
def lineEnd : Grammar Unit := newline <|> finish

/-- What may follow on a line. -/
def lineRest : Grammar Unit := do
  blanks
  let _ ← optional comment
  lineEnd

end Grammar

end EnvelopeClient.Toml
