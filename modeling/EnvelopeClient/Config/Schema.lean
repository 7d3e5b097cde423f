import EnvelopeClient.Config.Basic
import EnvelopeClient.Decimal.Layout
import EnvelopeClient.Toml.Item

/-!
# What a configuration says

`Config.ofTable` reads a configuration out of a document's tree. The keys are taken in the order of
the document and the first fault counts; keys it does not know are ignored.

* `socket_path` is a string and has to be there.
* `mode` is the name of a mode: a string, or a table with the name as its only key and nothing
  under it.
* `timeouts` is a table, or an array of the limits in order, of which those beyond the second are
  ignored. A date counts as a table that says nothing.

A fault points at the item it is about. An item that stands nowhere leaves that to the table
around it, and at last to the key.
-/

namespace EnvelopeClient

open Toml

/-- What is wrong with an item of a configuration. -/
inductive ConfigFault where
  /-- An item of another kind. -/
  | kind (found : Item) (expected : String)
  /-- An integer outside the range. -/
  | range (found : Int) (expected : String)
  | missing (key : String)
  /-- No mode has this name. -/
  | unknownMode (name : String)
  /-- A mode that is neither a string nor a table. -/
  | notStringOrTable
  /-- A mode as a table without a key. -/
  | noName
  /-- A mode as a table with several keys. -/
  | manyNames
  /-- Something other than a table under the name of a mode. -/
  | notTable (found : String)
  | notEmptyTable
  | notEmptyList

namespace ConfigFault

/-- How an item is named in a message about its kind. -/
def describe : Item → String
  | .string _ s => s!"string {Text.quoted s}"
  | .integer _ n => s!"integer `{n}`"
  | .float _ x => s!"floating point `{Decimal.plainText x}`"
  | .boolean _ b => s!"boolean `{b}`"
  | .datetime _ | .table _ => "map"
  | .array _ _ | .tables _ => "sequence"

/-- The wording of a fault. -/
def message : ConfigFault → String
  | .kind found expected => s!"invalid type: {describe found}, expected {expected}"
  | .range found expected => s!"invalid value: integer `{found}`, expected {expected}"
  | .missing key => s!"missing field `{key}`"
  | .unknownMode name => s!"unknown variant `{name}`, expected `per_request` or `shared`"
  | .notStringOrTable => "wanted string or table"
  | .noName => "wanted exactly 1 element, found 0 elements"
  | .manyNames => "wanted exactly 1 element, more than 1 element"
  | .notTable found => s!"expected table, found {found}"
  | .notEmptyTable => "expected empty table"
  | .notEmptyList => "expected empty array"

end ConfigFault

/-- A fault and where it is, as far as that is known. -/
structure PlacedFault where
  fault : ConfigFault
  span : Option Span

namespace PlacedFault

/-- Gives a result's fault a place, if it has none. -/
def within {α : Type} (span : Option Span) : Except PlacedFault α → Except PlacedFault α
  | .ok a => .ok a
  | .error f => .error { f with span := f.span.or span }

end PlacedFault

namespace Config

/-- Fails because of an item. -/
def blame {α : Type} (item : Item) (fault : ConfigFault) : Except PlacedFault α :=
  .error ⟨fault, item.span?⟩

/-- The name of a type of items in messages. -/
def typeName : Item → String
  | .string _ _ => "string"
  | .integer _ _ => "integer"
  | .float _ _ => "float"
  | .boolean _ _ => "boolean"
  | .datetime _ => "datetime"
  | .array _ _ => "array"
  | .table t => if t.origin = .inline then "inline table" else "table"
  | .tables _ => "array of tables"

/-- A path. -/
def readPath : Item → Except PlacedFault String
  | .string _ s => .ok s
  | item => blame item (.kind item "path string")

/-- A number of milliseconds. -/
def readMilliseconds : Item → Except PlacedFault Nat
  | .integer span n => if 0 ≤ n then .ok n.toNat else .error ⟨.range n "u64", some span⟩
  | item => blame item (.kind item "u64")

/-- The mode of a name. -/
def mode? : String → Option ConnectionMode
  | "per_request" => some .perRequest
  | "shared" => some .shared
  | _ => none

/-- Whatever is under the name of a mode has to be empty. -/
def readNothing (item : Item) : Except PlacedFault Unit :=
  match item with
  | .table t => if t.list.isEmpty then .ok () else blame item .notEmptyTable
  | .array _ items => if items.isEmpty then .ok () else blame item .notEmptyTable
  | .tables list => if list.isEmpty then .ok () else blame item .notEmptyList
  | item => blame item (.notTable (typeName item))

/-- A mode. -/
def readMode (item : Item) : Except PlacedFault ConnectionMode :=
  match item with
  | .string span name =>
    match mode? name with
    | some mode => .ok mode
    | none => .error ⟨.unknownMode name, some span⟩
  | .table t =>
    PlacedFault.within t.span <|
      match t.list with
      | [] => .error ⟨.noName, none⟩
      | [(name, keySpan, inner)] =>
        match mode? name with
        | none => .error ⟨.unknownMode name, some keySpan⟩
        | some mode => (readNothing inner).map fun () => mode
      | _ => .error ⟨.manyNames, none⟩
  | item => blame item .notStringOrTable

/-- Takes note of one key of the time limits. -/
def readTimeout (t : Timeouts) : String × Span × Item → Except PlacedFault Timeouts
  | (key, keySpan, item) =>
    PlacedFault.within (some keySpan) <|
      match key with
      | "connect_ms" => (readMilliseconds item).map fun ms => { t with connectMs := ms }
      | "request_ms" => (readMilliseconds item).map fun ms => { t with requestMs := ms }
      | _ => .ok t

/-- The time limits as a list: first that on connecting, then that on a request. -/
def readTimeoutList : List Item → Except PlacedFault Timeouts
  | [] => .ok .none
  | [connect] => (readMilliseconds connect).map fun connect => ⟨connect, 0⟩
  | connect :: request :: _ => do
    let connect ← readMilliseconds connect
    let request ← readMilliseconds request
    return ⟨connect, request⟩

/-- The time limits. -/
def readTimeouts (item : Item) : Except PlacedFault Timeouts :=
  PlacedFault.within item.span? <|
    match item with
    | .table t => t.list.foldlM readTimeout .none
    | .datetime _ => .ok .none
    | .array _ items => readTimeoutList items
    | .tables list => readTimeoutList (list.map .table)
    | item => blame item (.kind item "struct TimeoutConfig")

/-- What has been read of a configuration. -/
structure Partial where
  socketPath : Option String
  mode : ConnectionMode
  timeouts : Timeouts

/-- Takes note of one key of the document. -/
def readKey (c : Partial) : String × Span × Item → Except PlacedFault Partial
  | (key, keySpan, item) =>
    PlacedFault.within (some keySpan) <|
      match key with
      | "socket_path" => (readPath item).map fun path => { c with socketPath := some path }
      | "mode" => (readMode item).map fun mode => { c with mode }
      | "timeouts" => (readTimeouts item).map fun timeouts => { c with timeouts }
      | _ => .ok c

/-- The configuration a document's tree says. -/
def ofTable (t : Table) : Except PlacedFault Config :=
  PlacedFault.within t.span <| do
    let c ← t.list.foldlM readKey ⟨none, .perRequest, .none⟩
    match c.socketPath with
    | some path => return ⟨path, c.mode, c.timeouts⟩
    | none => .error ⟨.missing "socket_path", none⟩

end Config

end EnvelopeClient
