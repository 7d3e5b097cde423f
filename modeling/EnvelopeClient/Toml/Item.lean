/-!
# The tree of a TOML document

What a document says: keys and the items under them, in the order of the document. Every item
knows where it stands in the text, except for tables that were only named in passing.

A table remembers how it came about, because the grammar allows a later line to add to some
tables and not to others.
-/

namespace EnvelopeClient.Toml

/-- A part of the text, from one byte offset to another. -/
structure Span where
  start : Nat
  stop : Nat
  deriving DecidableEq, Repr

/-- How a table came about. -/
inductive Origin where
  /-- By a header of its own, or as the document. -/
  | header
  /-- By the header of a table below it. -/
  | implied
  /-- By a dotted key. -/
  | dotted
  /-- As a value between braces. -/
  | inline
  deriving DecidableEq, Repr

/-- Keys with items of some kind, in order. -/
structure Entries (α : Type) where
  /-- Where the table stands; a table that was only named in passing stands nowhere. -/
  span : Option Span
  origin : Origin
  /-- The keys, where each was first written, and what is under it. -/
  list : List (String × Span × α)

/-- What stands under a key. -/
inductive Item where
  | string (span : Span) (s : String)
  | integer (span : Span) (n : Int)
  | float (span : Span) (x : Float)
  | boolean (span : Span) (b : Bool)
  /-- A date, a time, or both. -/
  | datetime (span : Span)
  | array (span : Span) (items : List Item)
  | table (t : Entries Item)
  /-- The tables of the headers in double brackets with one name. -/
  | tables (list : List (Entries Item))

/-- A table of a document. -/
abbrev Table := Entries Item

namespace Item

/-- Where a list of tables stands: from the first to the end of the last. -/
def listSpan? (list : List (Entries Item)) : Option Span :=
  match list.head?.bind (·.span), list.getLast?.bind (·.span) with
  | some first, some last => some ⟨first.start, last.stop⟩
  | _, _ => none

/-- Where an item stands. -/
def span? : Item → Option Span
  | .string span _ | .integer span _ | .float span _ | .boolean span _ | .datetime span
  | .array span _ => some span
  | .table t => t.span
  | .tables list => listSpan? list

end Item

namespace Entries

variable {α : Type}

/-- A table with nothing in it. -/
def empty (span : Option Span) (origin : Origin) : Entries α := ⟨span, origin, []⟩

/-- What is under a key. -/
def find? (t : Entries α) (key : String) : Option α :=
  (t.list.lookup key).map (·.2)

/-- Puts an item under a key behind all others. -/
def append (t : Entries α) (key : String) (keySpan : Span) (item : α) : Entries α :=
  { t with list := t.list ++ [(key, keySpan, item)] }

/-- Replaces what is under a key. -/
def replace (t : Entries α) (key : String) (item : α) : Entries α :=
  { t with list := t.list.map fun (k, keySpan, old) =>
      if k = key then (k, keySpan, item) else (k, keySpan, old) }

/-- Takes a key out. -/
def erase (t : Entries α) (key : String) : Entries α :=
  { t with list := t.list.filter (·.1 ≠ key) }

end Entries

end EnvelopeClient.Toml
