import EnvelopeClient.Toml.Item

/-!
# From statements to a tree

A document is a list of statements: pairs of a dotted key and a value, and headers. `Table.ofList`
puts them together, or finds that they contradict each other:

* a key is given once, and a table is headed once;
* a header may pass through any table, and into the newest of a list of tables, but not into a
  value;
* a dotted key may pass through tables that were only named in passing, and the table it ends in
  must be one that dotted keys made.
-/

namespace EnvelopeClient.Toml

/-- One part of a dotted key. -/
structure Key where
  name : String
  span : Span

/-- A line of a document, other than blanks and comments. -/
inductive Statement where
  /-- A value under a dotted key, whose last part is given apart. -/
  | pair (path : List Key) (key : Key) (value : Item)
  /-- The header of a table. -/
  | table (path : List Key) (key : Key) (span : Span)
  /-- The header of one more table in a list of tables. -/
  | tables (path : List Key) (key : Key) (span : Span)

/-- What names a table in passing. -/
inductive Passage where
  | header
  | dottedKey
  deriving DecidableEq, Repr

namespace Passage

/-- The origin of a table that is new. -/
def origin : Passage → Origin
  | .header => .implied
  | .dottedKey => .dotted

/-- Whether a table can be passed through. -/
def enters (passage : Passage) (origin : Origin) : Bool :=
  match passage, origin with
  | _, .inline => false
  | .header, _ => true
  | .dottedKey, origin => origin = .implied || origin = .dotted

end Passage

namespace Table

/-- Does something to the last of a list of tables. -/
def updateLast (act : Table → Option Table) : List Table → Option (List Table)
  | [] => none
  | [t] => (act t).map fun t => [t]
  | t :: rest => (updateLast act rest).map fun rest => t :: rest

/-- Does something to the table at the end of a path. -/
def update (passage : Passage) (act : Table → Option Table) : List Key → Table → Option Table
  | [], t => act t
  | key :: path, t =>
    match t.find? key.name with
    | none => do
      let child ← update passage act path (.empty none passage.origin)
      return t.append key.name key.span (.table child)
    | some (.table child) =>
      if passage.enters child.origin then do
        let child ← update passage act path child
        return t.replace key.name (.table child)
      else none
    | some (.tables list) => do
      let list ← updateLast (update passage act path) list
      return t.replace key.name (.tables list)
    | some _ => none

/-- Puts a value under a key of a table, where it must be the first. Behind a path the table has
to be one of dotted keys. -/
def setValue (behindPath : Bool) (key : Key) (value : Item) (t : Table) : Option Table :=
  if behindPath && t.origin ≠ .dotted then none
  else
    match t.find? key.name with
    | some _ => none
    | none => some (t.append key.name key.span value)

/-- Puts a value under a dotted key. -/
def setPair (path : List Key) (key : Key) (value : Item) (t : Table) : Option Table :=
  update .dottedKey (setValue (!path.isEmpty) key value) path t

/-- Opens a table of a header. One that other headers implied keeps what is in it. -/
def openTable (key : Key) (span : Span) (t : Table) : Option Table :=
  match t.find? key.name with
  | none => some (t.append key.name key.span (.table (.empty (some span) .header)))
  | some (.table child) =>
    if child.origin = .implied then
      some ((t.erase key.name).append key.name key.span
        (.table { child with span := some span, origin := .header }))
    else none
  | some _ => none

/-- Opens one more table of a list of tables. -/
def openTables (key : Key) (span : Span) (t : Table) : Option Table :=
  match t.find? key.name with
  | none => some (t.append key.name key.span (.tables [.empty (some span) .header]))
  | some (.tables list) =>
    some (t.replace key.name (.tables (list ++ [.empty (some span) .header])))
  | some _ => none

/-- A table that reaches up to the end of a value that is added to it. -/
def stretch (value : Item) (t : Table) : Table :=
  match t.span, value.span? with
  | some span, some added => { t with span := some ⟨span.start, added.stop⟩ }
  | _, _ => t

end Table

/-- A document part way: the tree so far, and the table that pairs are added to. -/
structure Draft where
  tree : Table
  current : List Key

namespace Draft

/-- The document before its first statement. -/
def empty : Draft := ⟨.empty (some ⟨0, 0⟩) .header, []⟩

/-- Adds a statement. -/
def add (d : Draft) : Statement → Option Draft
  | .pair path key value => do
    let tree ← Table.update .header
      (fun t => Table.setPair path key value (Table.stretch value t)) d.current d.tree
    return { d with tree }
  | .table path key span => do
    let tree ← Table.update .header (Table.openTable key span) path d.tree
    return ⟨tree, path ++ [key]⟩
  | .tables path key span => do
    let tree ← Table.update .header (Table.openTables key span) path d.tree
    return ⟨tree, path ++ [key]⟩

end Draft

/-- The tree of a document's statements, unless they contradict each other. -/
def Table.ofList (statements : List Statement) : Option Table :=
  (statements.foldlM Draft.add Draft.empty).map (·.tree)

/-- The table of an inline table's pairs, unless they contradict each other. -/
def Table.ofPairs (span : Span) (pairs : List (List Key × Key × Item)) : Option Table :=
  pairs.foldlM (fun t (path, key, value) => Table.setPair path key value t)
    (Entries.empty (some span) .inline)

end EnvelopeClient.Toml
