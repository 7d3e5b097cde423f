import EnvelopeClient.Toml.Document
import EnvelopeClient.Toml.Number

/-!
# Reading a document

The grammar of values, keys and lines. `Table.ofText` reads a text into its tree. Arrays and inline
tables may be nested up to a limit, which also bounds the recursion, and so is the number of parts
of a dotted key.
-/

namespace EnvelopeClient.Toml

/-- How deep arrays and inline tables may be nested, and how many parts a dotted key may have. -/
def nestingLimit : Nat := 79

namespace Grammar

/-- Whether a character may stand in a key without quotes. -/
def isBare (x : Char) : Bool := x.isAlphanum || x = '_' || x = '-'

/-- One part of a key. -/
def simpleKey : Grammar Key := do
  let (span, name) ← spanned (basicString <|> rawString <|> run1 isBare)
  return ⟨String.ofList name, span⟩

/-- One part of a key among blanks. -/
def keyPart : Grammar Key := do
  blanks
  let key ← simpleKey
  blanks
  return key

/-- A dotted key: the path, and the last part. -/
def dottedKey : Grammar (List Key × Key) := do
  let first ← keyPart
  let more ← many (char '.' *> keyPart)
  let all := first :: more
  require (all.length ≤ nestingLimit)
  return (all.dropLast, all.getLast (List.cons_ne_nil first more))

/-- A value that holds no other. -/
def scalar : Grammar Item := do
  let start ← offset
  let make : Grammar (Span → Item) :=
    (do
      let text ← string
      return (.string · (String.ofList text))) <|>
    (do
      datetime
      return .datetime) <|>
    (do
      let x ← float
      return (.float · x)) <|>
    (do
      let n ← integer
      return (.integer · n)) <|>
    (do
      literal "true"
      return (.boolean · true)) <|>
    (do
      literal "false"
      return (.boolean · false))
  let item ← make
  let stop ← offset
  return item ⟨start, stop⟩

/-- An array of values; the last may have a comma behind it. -/
def array (value : Grammar Item) : Grammar Item := do
  let (span, items) ← spanned (do
    char '['
    let items ← separated (gap *> value <* gap) (char ',')
    if !items.isEmpty then
      let _ ← optional (char ',')
    gap
    char ']'
    return items)
  return .array span items

/-- A key and a value on one line. -/
def pair (value : Grammar Item) : Grammar (List Key × Key × Item) := do
  let (path, key) ← dottedKey
  char '='
  blanks
  let item ← value
  return (path, key, item)

/-- A table between braces, on one line. -/
def inlineTable (value : Grammar Item) : Grammar Item := do
  let (span, pairs) ← spanned (do
    char '\x7b'
    let pairs ← separated (pair value <* blanks) (char ',')
    blanks
    char '\x7d'
    return pairs)
  match Table.ofPairs span pairs with
  | some t => return .table t
  | none => failure

/-- A value with so many levels of arrays and inline tables. -/
def valueWithin : Nat → Grammar Item
  | 0 => scalar
  | depth + 1 => scalar <|> array (valueWithin depth) <|> inlineTable (valueWithin depth)

/-- A value. -/
def value : Grammar Item := valueWithin nestingLimit

/-- A line that says something. -/
def statement : Grammar Statement :=
  (do
    let (span, path, key) ← spanned (do
      literal "[["
      let key ← dottedKey
      literal "]]"
      return key)
    lineRest
    return .tables path key span) <|>
  (do
    let (span, path, key) ← spanned (do
      char '['
      let key ← dottedKey
      char ']'
      return key)
    lineRest
    return .table path key span) <|>
  (do
    let (path, key, item) ← pair value
    lineRest
    return .pair path key item)

/-- A line of any kind, with the blanks in front of the next. -/
def line : Grammar (Option Statement) := do
  let found ←
    (do
      comment
      lineEnd
      return none) <|>
    (do
      newline
      return none) <|>
    some <$> statement
  blanks
  return found

/-- A whole document. A byte order mark in front of it does not count. -/
def document : Grammar (List Statement) := do
  let _ ← optional (char '\ufeff')
  blanks
  let lines ← many line
  finish
  return lines.filterMap id

end Grammar

/-- The tree of a document, if it is one. -/
def Table.ofText (text : String) : Option Table := do
  let (statements, _) ← Grammar.document (.ofText text)
  Table.ofList statements

end EnvelopeClient.Toml
