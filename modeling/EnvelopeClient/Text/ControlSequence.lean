import EnvelopeClient.Text.Utf8

/-!
# Text without control sequences

A terminal does not show every character it is sent: control characters make it act, and an escape
character opens a sequence that it obeys. `withoutSequences` is what is left of a text for a reader
that is no terminal. Blanks stay, other control characters go, and a sequence goes as a whole; one
that does not end takes the rest of the text with it, except that a blank in the middle of a short
sequence brings the text behind it back.

`ControlSequence` says how far a sequence has been read, and so which character ends it.
A text without controls is left as it is: `withoutSequences_eq_self`.
-/

namespace EnvelopeClient.Text

/-- A sequence that has been opened and not ended. -/
inductive ControlSequence where
  /-- Behind the escape character. -/
  | escape
  /-- Behind the escape character and some intermediate characters. -/
  | intermediate
  /-- A control sequence, up to its final letter. -/
  | control
  /-- At the start of a device control string. -/
  | device
  /-- The parameters of a device control string. -/
  | deviceParameters
  /-- The intermediate characters of a device control string. -/
  | deviceIntermediate
  /-- The body of a device control string, or any other string for the terminal. -/
  | body
  /-- A command for the operating system, up to its bell. -/
  | command
  deriving DecidableEq, Repr

/-- Control characters that space out a text and are shown. -/
def isBlankControl (c : Char) : Bool :=
  c = '\t' || c = '\n' || c = '\x0c' || c = '\x0d'

/-- Control characters, the deletion among them; those beyond the first hundred and twenty-eight
characters do not count. -/
def isControl (c : Char) : Bool := c.toNat < 0x20 || c = '\x7f'

/-- The byte that ends the body of a string. -/
def stringEnd : UInt8 := 0x9c

namespace ControlSequence

/-- Whether a blank in the middle of a sequence is shown. -/
def showsBlanks : ControlSequence → Bool
  | escape | intermediate | control => true
  | device | deviceParameters | deviceIntermediate | body | command => false

/-- What is still open behind a character of the sequence that is neither a blank to be shown nor
one that opens a sequence of its own. -/
def next (s : ControlSequence) (c : Char) : Option ControlSequence :=
  if isControl c then if s = command && c = '\x07' then none else some s
  else if 0x80 ≤ c.toNat then
    if s = body && (Utf8.encode c.toString).contains stringEnd then none else some s
  else
    match s with
    | escape =>
      if c.toNat < 0x30 then some intermediate
      else if c = '[' then some control
      else if c = ']' then some command
      else if c = 'P' then some device
      else if c = 'X' || c = '^' || c = '_' then some body
      else none
    | intermediate => if c.toNat < 0x30 then some intermediate else none
    | control => if c.toNat < 0x40 then some control else none
    | device =>
      if c.toNat < 0x30 then some deviceIntermediate
      else if c.toNat < 0x40 then some deviceParameters
      else some body
    | deviceParameters =>
      if c.toNat < 0x30 then some deviceIntermediate
      else if c.toNat < 0x3c then some deviceParameters
      else some body
    | deviceIntermediate => if c.toNat < 0x30 then some deviceIntermediate else some body
    | body => some body
    | command => some command

end ControlSequence

/-- How a text is being read: the sequence that is open, and whether a blank in the middle of it has
brought the text back into view. -/
structure View where
  opened : Option ControlSequence
  inView : Bool
  deriving DecidableEq, Repr

namespace View

/-- Outside all sequences. -/
def start : View := ⟨none, false⟩

/-- Reads a character; the answer says whether it is shown. -/
def step (v : View) (c : Char) : Bool × View :=
  if c = '\x1b' then (false, ⟨some .escape, false⟩)
  else if c = '\x18' || c = '\x1a' then (false, start)
  else
    match v.opened with
    | none => (!isControl c || isBlankControl c, v)
    | some s =>
      if isBlankControl c && (v.inView || s.showsBlanks) then (true, ⟨some s, true⟩)
      else if v.inView then
        if isControl c then (false, ⟨some s, false⟩)
        else if 0x80 ≤ c.toNat then (true, start)
        else (true, v)
      else (false, ⟨s.next c, false⟩)

end View

/-- The characters that are shown from some point on. -/
def shownFrom (v : View) : List Char → List Char
  | [] => []
  | c :: rest =>
    let (shown, v) := v.step c
    if shown then c :: shownFrom v rest else shownFrom v rest

/-- What is left of a text where no terminal acts on it. -/
def withoutSequences (s : String) : String :=
  String.ofList (shownFrom .start s.toList)

theorem shownFrom_start_eq_self {cs : List Char} (h : ∀ c ∈ cs, isControl c = false) :
    shownFrom .start cs = cs := by
  induction cs with
  | nil => rfl
  | cons c rest ih =>
    have hc := h c (by simp)
    have hesc : c ≠ '\x1b' := by rintro rfl; simp [isControl] at hc
    have hcan : c ≠ '\x18' := by rintro rfl; simp [isControl] at hc
    have hsub : c ≠ '\x1a' := by rintro rfl; simp [isControl] at hc
    have hstep : View.start.step c = (true, .start) := by
      simp [View.step, View.start, hesc, hcan, hsub, hc]
    simp only [shownFrom, hstep, ↓reduceIte]
    rw [ih fun d hd => h d (by simp [hd])]

/-- A text without control characters is left as it is. -/
theorem withoutSequences_eq_self {s : String} (h : ∀ c ∈ s.toList, isControl c = false) :
    withoutSequences s = s := by
  simp [withoutSequences, shownFrom_start_eq_self h]

end EnvelopeClient.Text
