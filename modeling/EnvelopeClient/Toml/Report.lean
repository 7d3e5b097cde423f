import EnvelopeClient.Toml.Item

/-!
# Pointing at a place in a document

A `Report` shows the line a fault begins in, with carets under the part the fault is about.
-/

namespace EnvelopeClient.Toml

/-- The first line of every report. -/
def reportTitle : String := "TOML parse error"

/-- The characters in front of a byte offset. -/
def charsBefore : Nat → List Char → List Char
  | _, [] => []
  | offset, x :: rest => if offset = 0 then [] else x :: charsBefore (offset - x.utf8Size) rest

/-- A place in a text. -/
structure Location where
  /-- The number of the line, from 0. -/
  line : Nat
  /-- The number of characters in front of the place on its line. -/
  column : Nat
  deriving DecidableEq, Repr

/-- The place of a byte offset. Lines end at line feeds only. -/
def Location.ofOffset (text : List Char) (offset : Nat) : Location :=
  let before := charsBefore offset text
  ⟨before.count '\n', (before.reverse.takeWhile (· ≠ '\n')).length⟩

/-- The text of one line. -/
def lineAt (text : List Char) (line : Nat) : String :=
  String.ofList (((text.splitOn '\n')[line]?).getD [])

/-- How many carets a span gets: one for each of its bytes that is left on the line, and at least
one. -/
def caretCount (span : Span) (content : String) (column : Nat) : Nat :=
  max 1 (min (span.stop - span.start) (content.utf8ByteSize - column))

/-- So many copies of a character. -/
def repeated (count : Nat) (x : Char) : String :=
  String.ofList (List.replicate count x)

/-- A message about a part of a document, below the line it begins in. -/
def report (text : String) (span : Span) (message : String) : String :=
  let place := Location.ofOffset text.toList span.start
  let content := lineAt text.toList place.line
  let number := toString (place.line + 1)
  let gutter := repeated (number.length + 1) ' ' ++ "|"
  s!"{reportTitle} at line {place.line + 1}, column {place.column + 1}\n" ++
    gutter ++ "\n" ++
    number ++ " | " ++ content ++ "\n" ++
    gutter ++ repeated (place.column + 1) ' ' ++
      repeated (caretCount span content place.column) '^' ++ "\n" ++
    message ++ "\n"

end EnvelopeClient.Toml
