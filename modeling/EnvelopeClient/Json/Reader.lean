import EnvelopeClient.Json.Numeral
import EnvelopeClient.Json.StringText

/-!
# Reading documents off a byte stream

The reader is a machine with a stack: `State.step` takes one byte, and everything it knows about
the bytes before is in its `State`. So reading a long text is reading its parts one after the
other (`scan_append`), a text that is complete stays complete when bytes follow it, and where the
text was cut into pieces leaves no trace.

* `Reading.front` looks for one document at the front of a stream, where another may follow at
  once; a number or a word must then be set off by a blank or a structural byte.
* `Value.ofText` wants the whole text to be one document.

Containers nest at most 127 deep.
-/

namespace EnvelopeClient.Json

/-- A container that is open around the value being read. -/
inductive Enclosing where
  /-- An array with its items so far, the newest first. -/
  | list (items : List Value)
  /-- An object with its members so far, at the value of a key. -/
  | object (members : Members) (key : String)

/-- What a string is for. -/
inductive StringRole where
  | value
  | key (members : Members)

/-- What the machine stands before or in the middle of. An array or object between two of its
values is part of the mode; while a value inside it is read, it waits on the stack. -/
inductive Mode where
  /-- A value has to come. -/
  | value
  /-- Behind `[`: a first item or the end. -/
  | firstItem
  /-- Behind a comma in an array: another item. -/
  | nextItem (items : List Value)
  /-- Behind an item: a comma or the end. -/
  | afterItem (items : List Value)
  /-- Behind `{`: a first key or the end. -/
  | firstKey
  /-- Behind a comma in an object: another key. -/
  | nextKey (members : Members)
  /-- Behind a key: a colon. -/
  | afterKey (members : Members) (key : String)
  /-- Behind a member: a comma or the end. -/
  | afterMember (members : Members)
  /-- In `null`, `true` or `false`, with these bytes still to come. -/
  | word (value : Value) (left : List UInt8)
  /-- In a number. -/
  | number (n : Numeral)
  /-- In a string. -/
  | string (role : StringRole) (s : StringText)

/-- The machine: the open containers, the innermost first, and its place in the current one. -/
structure State where
  enclosing : List Enclosing
  mode : Mode

/-- What one byte does to the machine. -/
inductive Step where
  | more (s : State)
  /-- The document is complete; `taken` says whether the byte belongs to it. -/
  | done (v : Value) (taken : Bool)
  /-- The text is broken; `taken` says whether the fault shows behind the byte or before it. -/
  | broken (fault : Fault) (taken : Bool)

/-- Space, tab, line feed and carriage return. -/
def isBlank (b : UInt8) : Bool :=
  b = 0x20 || b = 0x0a || b = 0x09 || b = 0x0d

/-- The depth at which no further container may open. -/
def depthLimit : Nat := 127

namespace State

/-- Before a document. -/
def initial : State := ⟨[], .value⟩

/-- The machine behind a complete value, or the value itself where no container is open. -/
def deliver (enclosing : List Enclosing) (v : Value) : Value ⊕ State :=
  match enclosing with
  | [] => .inl v
  | .list items :: outer => .inr ⟨outer, .afterItem (v :: items)⟩
  | .object members key :: outer => .inr ⟨outer, .afterMember (members.insert key v)⟩

/-- A value that ends with the byte just read. -/
def deliverTaken (enclosing : List Enclosing) (v : Value) : Step :=
  match deliver enclosing v with
  | .inl v => .done v true
  | .inr s => .more s

/-- The first byte of a value. -/
def beginValue (enclosing : List Enclosing) (b : UInt8) : Step :=
  if b = 0x7b then
    if depthLimit ≤ enclosing.length then .broken .recursionLimit true
    else .more ⟨enclosing, .firstKey⟩
  else if b = 0x5b then
    if depthLimit ≤ enclosing.length then .broken .recursionLimit true
    else .more ⟨enclosing, .firstItem⟩
  else if b = 0x22 then .more ⟨enclosing, .string .value .empty⟩
  else if b = 0x6e then .more ⟨enclosing, .word .null [0x75, 0x6c, 0x6c]⟩
  else if b = 0x74 then .more ⟨enclosing, .word (.bool true) [0x72, 0x75, 0x65]⟩
  else if b = 0x66 then .more ⟨enclosing, .word (.bool false) [0x61, 0x6c, 0x73, 0x65]⟩
  else if b = 0x2d then .more ⟨enclosing, .number .ofMinus⟩
  else
    match digit? b with
    | some d => .more ⟨enclosing, .number (.firstDigit false d)⟩
    | none => .broken .expectedValue true

/-- A byte behind an item of an array. -/
def afterItem (enclosing : List Enclosing) (items : List Value) (b : UInt8) : Step :=
  if isBlank b then .more ⟨enclosing, .afterItem items⟩
  else if b = 0x2c then .more ⟨enclosing, .nextItem items⟩
  else if b = 0x5d then deliverTaken enclosing (.array items.reverse)
  else .broken .expectedListCommaOrEnd true

/-- A byte behind a member of an object. -/
def afterMember (enclosing : List Enclosing) (members : Members) (b : UInt8) : Step :=
  if isBlank b then .more ⟨enclosing, .afterMember members⟩
  else if b = 0x2c then .more ⟨enclosing, .nextKey members⟩
  else if b = 0x7d then deliverTaken enclosing (.object members)
  else .broken .expectedObjectCommaOrEnd true

/-- The byte at which a number ended, seen from behind the number. -/
def afterNumber (enclosing : List Enclosing) (n : Number) (b : UInt8) : Step :=
  match enclosing with
  | [] => .done (.number n) false
  | .list items :: outer => afterItem outer (.number n :: items) b
  | .object members key :: outer => afterMember outer (members.insert key (.number n)) b

/-- Reads one byte. -/
def step (s : State) (b : UInt8) : Step :=
  match s.mode with
  | .value => if isBlank b then .more s else beginValue s.enclosing b
  | .firstItem =>
    if isBlank b then .more s
    else if b = 0x5d then deliverTaken s.enclosing (.array [])
    else beginValue (.list [] :: s.enclosing) b
  | .nextItem items =>
    if isBlank b then .more s
    else if b = 0x5d then .broken .trailingComma true
    else beginValue (.list items :: s.enclosing) b
  | .afterItem items => afterItem s.enclosing items b
  | .firstKey =>
    if isBlank b then .more s
    else if b = 0x7d then deliverTaken s.enclosing (.object [])
    else if b = 0x22 then .more ⟨s.enclosing, .string (.key []) .empty⟩
    else .broken .keyNotString true
  | .nextKey members =>
    if isBlank b then .more s
    else if b = 0x7d then .broken .trailingComma true
    else if b = 0x22 then .more ⟨s.enclosing, .string (.key members) .empty⟩
    else .broken .keyNotString true
  | .afterKey members key =>
    if isBlank b then .more s
    else if b = 0x3a then .more ⟨.object members key :: s.enclosing, .value⟩
    else .broken .expectedColon true
  | .afterMember members => afterMember s.enclosing members b
  | .word v left =>
    match left with
    | [] => .broken .expectedIdent true
    | c :: rest =>
      if b ≠ c then .broken .expectedIdent true
      else if rest.isEmpty then deliverTaken s.enclosing v
      else .more ⟨s.enclosing, .word v rest⟩
  | .number n =>
    match n.step b with
    | .more n => .more ⟨s.enclosing, .number n⟩
    | .broken fault => .broken fault true
    | .ended =>
      match n.value? with
      | none => .broken .numberOutOfRange false
      | some value => afterNumber s.enclosing value b
  | .string role text =>
    match text.step b with
    | .more text => .more ⟨s.enclosing, .string role text⟩
    | .broken fault => .broken fault true
    | .closed content =>
      match role with
      | .value => deliverTaken s.enclosing (.string content)
      | .key members => .more ⟨s.enclosing, .afterKey members content⟩

end State

/-- What reading a text from its front comes to. -/
inductive Reading where
  /-- There is nothing but blanks. -/
  | blank
  /-- A document, and the bytes behind it. -/
  | complete (v : Value) (rest : List UInt8)
  /-- The text ends inside a document. -/
  | incomplete (what : Unfinished)
  /-- The text is broken; the fault shows after `index` bytes. -/
  | broken (fault : Fault) (index : Nat)

/-- What the end of the text after `index` bytes means. A number may end with the text. -/
def State.finish (s : State) (index : Nat) : Reading :=
  match s.mode with
  | .value => if s.enclosing.isEmpty then .blank else .incomplete .value
  | .firstItem | .afterItem _ => .incomplete .list
  | .nextItem _ | .nextKey _ | .word _ _ => .incomplete .value
  | .firstKey | .afterKey _ _ | .afterMember _ => .incomplete .object
  | .string _ _ => .incomplete .string
  | .number n =>
    if !n.isWhole then .incomplete .value
    else
      match n.value?, s.enclosing with
      | none, _ => .broken .numberOutOfRange index
      | some value, [] => .complete (.number value) []
      | some _, .list _ :: _ => .incomplete .list
      | some _, .object _ _ :: _ => .incomplete .object

/-- Reads on from a state that `index` bytes led to. -/
def scan (s : State) (index : Nat) : List UInt8 → Reading
  | [] => s.finish index
  | b :: rest =>
    match s.step b with
    | .more s => scan s (index + 1) rest
    | .done v true => .complete v rest
    | .done v false => .complete v (b :: rest)
    | .broken fault true => .broken fault (index + 1)
    | .broken fault false => .broken fault index

/-- The state some bytes lead to, if the document goes on behind them. -/
def State.run? (s : State) : List UInt8 → Option State
  | [] => some s
  | b :: rest =>
    match s.step b with
    | .more s => s.run? rest
    | _ => none

/-- Reading goes through a document's parts one after the other. -/
theorem scan_append {s t : State} {part : List UInt8} (h : s.run? part = some t) (index : Nat)
    (rest : List UInt8) : scan s index (part ++ rest) = scan t (index + part.length) rest := by
  induction part generalizing s index with
  | nil => simp_all [State.run?]
  | cons b part ih =>
    simp only [State.run?] at h
    simp only [List.cons_append, scan]
    split at h
    · next s' hs =>
        rw [hs]
        simp only [ih h]
        congr 1
        simp only [List.length_cons]
        omega
    · cases h

/-- A value never ends with its first byte. -/
theorem beginValue_ne_done (enclosing : List Enclosing) (b : UInt8) (v : Value) (taken : Bool) :
    State.beginValue enclosing b ≠ .done v taken := by
  unfold State.beginValue
  repeat' split
  all_goals intro h; cases h

/-- What follows a document is a suffix of what was read. -/
theorem scan_complete_suffix {s : State} {index : Nat} {bytes rest : List UInt8} {v : Value}
    (h : scan s index bytes = .complete v rest) : rest <:+ bytes := by
  induction bytes generalizing s index with
  | nil =>
    have : rest = [] := by
      simp only [scan, State.finish] at h
      repeat' split at h
      all_goals cases h
      rfl
    simp [this]
  | cons b bytes ih =>
    simp only [scan] at h
    split at h
    · exact (ih h).trans (List.suffix_cons b bytes)
    · cases h; exact List.suffix_cons b _
    · cases h; exact List.suffix_rfl
    · cases h
    · cases h

/-- A document takes up at least one byte. -/
theorem scan_initial_length_lt {bytes rest : List UInt8} {v : Value}
    (h : scan .initial 0 bytes = .complete v rest) : rest.length < bytes.length := by
  cases bytes with
  | nil => simp [scan, State.finish, State.initial] at h
  | cons b bytes =>
    simp only [scan] at h
    split at h
    · have := (scan_complete_suffix h).length_le
      simp only [List.length_cons]
      omega
    · next hs =>
        simp only [State.step, State.initial] at hs
        split at hs
        · cases hs
        · exact absurd hs (beginValue_ne_done _ _ _ _)
    · next hs =>
        simp only [State.step, State.initial] at hs
        split at hs
        · cases hs
        · exact absurd hs (beginValue_ne_done _ _ _ _)
    · cases h
    · cases h

/-- Whether a byte may follow a number or a word at once. -/
def setsOff (b : UInt8) : Bool :=
  isBlank b || b = 0x22 || b = 0x5b || b = 0x5d || b = 0x7b || b = 0x7d || b = 0x2c || b = 0x3a

/-- Whether a document starting with this byte shows its own end. -/
def isDelimited (b : UInt8) : Bool :=
  b = 0x5b || b = 0x7b || b = 0x22

/-- The first byte that is not blank. -/
def firstByte? (bytes : List UInt8) : Option UInt8 :=
  bytes.find? fun b => !isBlank b

/-- Looks for one document at the front of a stream. -/
def Reading.front (bytes : List UInt8) : Reading :=
  match scan .initial 0 bytes with
  | .complete v rest =>
    if (firstByte? bytes).any isDelimited || rest.head?.all setsOff then .complete v rest
    else .broken .trailingCharacters (bytes.length - rest.length + 1)
  | reading => reading

theorem front_length_lt {bytes rest : List UInt8} {v : Value}
    (h : Reading.front bytes = .complete v rest) : rest.length < bytes.length := by
  simp only [Reading.front] at h
  split at h
  · next hs =>
      split at h
      · cases h; exact scan_initial_length_lt hs
      · cases h
  · next hs => exact scan_initial_length_lt h

/-- Reads a text that is one document with blanks around it. -/
def Value.ofText (bytes : List UInt8) : Except SyntaxError Value :=
  match scan .initial 0 bytes with
  | .blank => .error (.ofUnfinished bytes .value)
  | .incomplete what => .error (.ofUnfinished bytes what)
  | .broken fault index => .error (.ofFault bytes fault index)
  | .complete v rest =>
    match rest.dropWhile isBlank with
    | [] => .ok v
    | extra => .error (.ofFault bytes .trailingCharacters (bytes.length - extra.length + 1))

end EnvelopeClient.Json
