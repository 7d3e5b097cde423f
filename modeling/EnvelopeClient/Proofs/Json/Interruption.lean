import EnvelopeClient.Proofs.Json.Document

/-!
# A message in the middle of a document

When a document is cut off and a message follows at once, the message's first bytes are read from
wherever the document was. Where a value may stand (`State.wantsValue`), the message is read as that
value. Everywhere else it breaks the text within its first four bytes (`State.broken_of_opening`):
in a string its second byte is the end of the string, behind which its third one cannot stand.
-/

namespace EnvelopeClient.Json

/-- An escape with a byte that is no hexadecimal digit names no unit. -/
theorem hexUnit?_eq_none {b : UInt8} (hb : hexDigit? b = none) {digits : List UInt8}
    (h : b ∈ digits) : hexUnit? digits = none := by
  induction digits with
  | nil => cases h
  | cons c older ih =>
    rw [hexUnit?]
    rcases List.mem_cons.mp h with rfl | hmem
    · cases hexUnit? older with
      | none => rfl
      | some high => simp [hb]
    · rw [ih hmem]
      rfl

/-- The first bytes of a message, and any others behind them. -/
def opening (rest : List UInt8) : List UInt8 := 0x7b :: 0x22 :: 0x65 :: 0x76 :: rest

namespace State

variable {s t : State} {b : UInt8}

/-- Whether a value may begin here. -/
def wantsValue (s : State) : Bool :=
  match s.mode with
  | .value | .firstItem | .nextItem _ => true
  | _ => false

/-- Whether this is inside a string. -/
def inString (s : State) : Bool :=
  match s.mode with
  | .string _ _ => true
  | _ => false

/-- Behind a string an `e` cannot stand. -/
theorem broken_behind_string {enclosing : List Enclosing} {role : StringRole} {text : StringText}
    {content : String} (h : Inside ⟨enclosing, .string role text⟩)
    (hclosed : text.step b = .closed content) (index : Nat) (rest : List UInt8) :
    ∃ fault place, scan ⟨enclosing, .string role text⟩ index (b :: 0x65 :: rest) =
      .broken fault place := by
  cases role with
  | key members =>
    exact ⟨.expectedColon, index + 1 + 1, by simp [scan, step, hclosed, isBlank]⟩
  | value =>
    obtain ⟨e, outer, rfl⟩ := exists_enclosing h rfl
    cases e with
    | list items =>
      exact ⟨.expectedListCommaOrEnd, index + 1 + 1, by
        simp [scan, step, hclosed, deliverTaken, deliver, afterItem, isBlank]⟩
    | object members key =>
      exact ⟨.expectedObjectCommaOrEnd, index + 1 + 1, by
        simp [scan, step, hclosed, deliverTaken, deliver, afterMember, isBlank]⟩

/-- An escape of four digits with a brace among them breaks the text at its fourth byte. -/
theorem broken_in_unit {enclosing : List Enclosing} {role : StringRole} {content : List UInt8}
    (spot : List UInt8 → Spot) (take : List UInt8 → StringStep)
    (hstep : ∀ digits c, StringText.step ⟨content, spot digits⟩ c =
      if digits.length < 3 then .more ⟨content, spot (c :: digits)⟩ else take (c :: digits))
    (htake : ∀ digits, 0x7b ∈ digits → take digits = .broken .invalidEscape)
    {digits : List UInt8} (hbrace : 0x7b ∈ digits) (hlength : digits.length < 4)
    {bytes : List UInt8} (hbytes : 4 ≤ digits.length + bytes.length) (index : Nat) :
    ∃ fault place, scan ⟨enclosing, .string role ⟨content, spot digits⟩⟩ index bytes =
      .broken fault place := by
  induction bytes generalizing digits index with
  | nil =>
    simp only [List.length_nil, Nat.add_zero] at hbytes
    omega
  | cons c bytes ih =>
    simp only [List.length_cons] at hbytes
    simp only [scan, step, hstep]
    by_cases hmore : digits.length < 3
    · simp only [if_pos hmore]
      exact ih (List.mem_cons_of_mem c hbrace) (by simp only [List.length_cons]; omega)
        (by simp only [List.length_cons]; omega) (index + 1)
    · simp only [if_neg hmore, htake (c :: digits) (List.mem_cons_of_mem c hbrace)]
      exact ⟨.invalidEscape, index + 1, rfl⟩

/-- So does any such escape at a message's opening. -/
theorem broken_of_unit {enclosing : List Enclosing} {role : StringRole} {content : List UInt8}
    (spot : List UInt8 → Spot) (take : List UInt8 → StringStep)
    (hstep : ∀ digits c, StringText.step ⟨content, spot digits⟩ c =
      if digits.length < 3 then .more ⟨content, spot (c :: digits)⟩ else take (c :: digits))
    (htake : ∀ digits, 0x7b ∈ digits → take digits = .broken .invalidEscape)
    (digits : List UInt8) (index : Nat) (rest : List UInt8) :
    ∃ fault place, scan ⟨enclosing, .string role ⟨content, spot digits⟩⟩ index (opening rest) =
      .broken fault place := by
  rw [opening, scan]
  simp only [step, hstep digits]
  by_cases hmore : digits.length < 3
  · simp only [if_pos hmore]
    exact broken_in_unit spot take hstep htake List.mem_cons_self
      (by simp only [List.length_cons]; omega) (by simp only [List.length_cons]; omega) (index + 1)
  · simp only [if_neg hmore, htake (0x7b :: digits) List.mem_cons_self]
    exact ⟨.invalidEscape, index + 1, rfl⟩

/-- In a string a message's opening breaks the text. -/
theorem broken_in_string {enclosing : List Enclosing} {role : StringRole} {text : StringText}
    (h : Inside ⟨enclosing, .string role text⟩) (index : Nat) (rest : List UInt8) :
    ∃ fault place, scan ⟨enclosing, .string role text⟩ index (opening rest) =
      .broken fault place := by
  obtain ⟨content, spot⟩ := text
  have hbrace : hexDigit? 0x7b = none := by decide
  cases spot with
  | plain =>
    -- the brace belongs to the string, and the quotation mark closes it
    have hmore : scan ⟨enclosing, .string role ⟨content, .plain⟩⟩ index (opening rest) =
        scan ⟨enclosing, .string role ⟨0x7b :: content, .plain⟩⟩ (index + 1)
          (0x22 :: 0x65 :: 0x76 :: rest) := by
      simp [opening, scan, step, StringText.step]
    rw [hmore]
    cases hclose : StringText.step ⟨0x7b :: content, .plain⟩ 0x22 with
    | more next =>
      simp only [StringText.step, StringText.close, if_true] at hclose
      split at hclose <;> cases hclose
    | closed closedContent => exact broken_behind_string (inside_string h _) hclose (index + 1) _
    | broken fault => exact ⟨fault, index + 1 + 1, by simp [scan, step, hclose]⟩
  | escape =>
    exact ⟨.invalidEscape, index + 1, by
      simp [opening, scan, step, StringText.step, simpleEscape?]⟩
  | pairBackslash high =>
    exact ⟨.unexpectedEndOfHexEscape, index + 1, by simp [opening, scan, step, StringText.step]⟩
  | pairMark high =>
    exact ⟨.unexpectedEndOfHexEscape, index + 1, by simp [opening, scan, step, StringText.step]⟩
  | unit digits =>
    refine broken_of_unit .unit (StringText.takeUnit content) (fun _ _ => rfl) ?_ digits index rest
    intro digits hmem
    rw [StringText.takeUnit, hexUnit?_eq_none hbrace hmem]
  | pairUnit high digits =>
    refine broken_of_unit (.pairUnit high) (StringText.takeLowHalf content high) (fun _ _ => rfl) ?_
      digits index rest
    intro digits hmem
    rw [StringText.takeLowHalf, hexUnit?_eq_none hbrace hmem]

theorem step_number_brace (n next : Numeral) : n.step 0x7b ≠ .more next := by
  have hdigit : digit? 0x7b = none := by decide
  intro h
  cases hstage : n.stage <;>
    simp [Numeral.step, hstage, hdigit, Numeral.afterWhole, Numeral.afterFraction,
      isExponentMark] at h

/-- Inside a container a brace can stand in a string or at a value, and nowhere else. -/
theorem step_brace (h : s.Inside) (hwants : s.wantsValue = false) (hstring : s.inString = false) :
    ∃ fault taken, s.step 0x7b = .broken fault taken := by
  obtain ⟨enclosing, mode⟩ := s
  cases mode with
  | value => cases hwants
  | firstItem => cases hwants
  | nextItem items => cases hwants
  | string role text => cases hstring
  | afterItem items => exact ⟨_, _, rfl⟩
  | firstKey => exact ⟨_, _, rfl⟩
  | nextKey members => exact ⟨_, _, rfl⟩
  | afterKey members key => exact ⟨_, _, rfl⟩
  | afterMember members => exact ⟨_, _, rfl⟩
  | word v left =>
    have hspelled : 0x7b ∉ left := by simpa [Mode.isSpelled] using h.spelled
    cases left with
    | nil => exact ⟨_, _, rfl⟩
    | cons c rest =>
      have hne : 0x7b ≠ c := fun heq => hspelled (heq ▸ List.mem_cons_self)
      exact ⟨.expectedIdent, true, by simp only [step, if_pos hne]⟩
  | number n =>
    obtain ⟨e, outer, rfl⟩ := exists_enclosing h rfl
    cases hstep : n.step 0x7b with
    | more next => exact absurd hstep (step_number_brace n next)
    | broken fault => exact ⟨fault, true, by simp only [step, hstep]⟩
    | ended =>
      cases hvalue : n.value? with
      | none => exact ⟨.numberOutOfRange, false, by simp only [step, hstep, hvalue]⟩
      | some value =>
        -- the number is the value before the brace
        simp only [step, hstep, hvalue, afterNumber_cons]
        cases e <;> exact ⟨_, _, rfl⟩

/-- At a value a brace opens an object, unless there are too many containers around it. -/
theorem step_brace_of_wantsValue (h : s.Inside) (hwants : s.wantsValue = true) :
    s.step 0x7b = .broken .recursionLimit true ∨
      ∃ e outer, s.step 0x7b = .more ⟨e :: outer, .firstKey⟩ := by
  have hbegin : ∀ e outer, beginValue (e :: outer) 0x7b = .broken .recursionLimit true ∨
      beginValue (e :: outer) 0x7b = .more ⟨e :: outer, .firstKey⟩ := by
    intro e outer
    simp only [beginValue, if_true]
    split
    · exact .inl rfl
    · exact .inr rfl
  obtain ⟨enclosing, mode⟩ := s
  cases mode with
  | value =>
    obtain ⟨e, outer, rfl⟩ := exists_enclosing h rfl
    exact (hbegin e outer).imp_right fun hmore => ⟨e, outer, hmore⟩
  | firstItem => exact (hbegin _ _).imp_right fun hmore => ⟨_, _, hmore⟩
  | nextItem items => exact (hbegin _ _).imp_right fun hmore => ⟨_, _, hmore⟩
  | _ => cases hwants

/-- A brace that is read outside a string opens an object. -/
theorem opened_of_step_brace (h : s.Inside) (hstring : s.inString = false) {next : State}
    (hstep : s.step 0x7b = .more next) : ∃ e outer, next = ⟨e :: outer, .firstKey⟩ := by
  cases hwants : s.wantsValue with
  | false =>
    obtain ⟨fault, taken, hbroken⟩ := step_brace h hwants hstring
    rw [hbroken] at hstep
    cases hstep
  | true =>
    rcases step_brace_of_wantsValue h hwants with hdeep | ⟨e, outer, hmore⟩
    · rw [hdeep] at hstep
      cases hstep
    · rw [hmore] at hstep
      cases hstep
      exact ⟨e, outer, rfl⟩

/-- Where a value may stand, a document is read as that value, unless it nests too deep there. -/
theorem scan_at_value (h : s.Inside) (hwants : s.wantsValue = true) {text : List UInt8} {v : Value}
    (hdocument : Document text v) (index : Nat) :
    (∃ what, scan s index text = .incomplete what) ∨
      ∃ place, scan s index text = .broken .recursionLimit place := by
  obtain ⟨rest, rfl⟩ := hdocument.exists_cons
  obtain ⟨p, b, t, rfl, hrun, hdone⟩ := hdocument.run?_firstKey
  rcases step_brace_of_wantsValue h hwants with hdeep | ⟨e, outer, hmore⟩
  · exact .inr ⟨index + 1, by rw [scan, hdeep]⟩
  · have hinner : Inside ⟨[], .firstKey⟩ := inside_of_mode rfl rfl
    rcases scan_within hinner hrun hdone e outer with hall | hdeep
    · left
      obtain ⟨what, hfinish⟩ := unfinished_behind e outer v
      refine ⟨what, ?_⟩
      rw [scan, hmore]
      have hscan := scan_append hall (index + 1) []
      rw [List.append_nil, scan, hfinish] at hscan
      exact hscan
    · obtain ⟨place, hbroken⟩ := hdeep (index + 1) []
      exact .inr ⟨place, by rw [scan, hmore]; exact hbroken⟩

/-- **Where no value may stand, a message's opening breaks the text.** -/
theorem broken_of_opening (h : s.Inside) (hwants : s.wantsValue = false) (index : Nat)
    (rest : List UInt8) : ∃ fault place, scan s index (opening rest) = .broken fault place := by
  cases hstring : s.inString with
  | false =>
    obtain ⟨fault, taken, hstep⟩ := step_brace h hwants hstring
    rw [opening, scan, hstep]
    cases taken <;> exact ⟨fault, _, rfl⟩
  | true =>
    obtain ⟨enclosing, mode⟩ := s
    cases mode with
    | string role text => exact broken_in_string h index rest
    | _ => cases hstring

/-! ### What follows a value inside a container -/

theorem step_behind_of_blank (e : Enclosing) (outer : List Enclosing) (v : Value)
    (hblank : isBlank b = true) : (behind e outer v).step b = .more (behind e outer v) := by
  cases e with
  | list items => simp only [behind, step, afterItem, if_pos hblank]
  | object members key => simp only [behind, step, afterMember, if_pos hblank]

theorem isSeparator_of_step_behind {e : Enclosing} {outer : List Enclosing} {v : Value}
    (hblank : isBlank b = false) (h : (behind e outer v).step b = .more t) : IsSeparator b := by
  cases e with
  | list items =>
    simp only [behind, step, afterItem, hblank] at h
    by_cases hcomma : b = 0x2c
    · exact .inl hcomma
    by_cases hbracket : b = 0x5d
    · exact .inr (.inl hbracket)
    simp [hcomma, hbracket] at h
  | object members key =>
    simp only [behind, step, afterMember, hblank] at h
    by_cases hcomma : b = 0x2c
    · exact .inl hcomma
    by_cases hbrace : b = 0x7d
    · exact .inr (.inr hbrace)
    simp [hcomma, hbrace] at h

/-- Behind a value inside a container the first byte that is not blank is a separator. -/
theorem blank_or_separator {e : Enclosing} {outer : List Enclosing} {v : Value}
    {text : List UInt8} (hrun : (behind e outer v).run? text = some t) :
    Blank text ∨ ∃ blanks b rest, text = blanks ++ b :: rest ∧ Blank blanks ∧ IsSeparator b := by
  induction text with
  | nil => exact .inl blank_nil
  | cons b text ih =>
    cases hblank : isBlank b with
    | true =>
      rw [run?, step_behind_of_blank e outer v hblank] at hrun
      rcases ih hrun with hall | ⟨blanks, c, rest, rfl, hblanks, hseparator⟩
      · left
        intro c hc
        rcases List.mem_cons.mp hc with rfl | hc
        · exact hblank
        · exact hall c hc
      · refine .inr ⟨b :: blanks, c, rest, rfl, ?_, hseparator⟩
        intro d hd
        rcases List.mem_cons.mp hd with rfl | hd
        · exact hblank
        · exact hblanks d hd
    | false =>
      rw [run?] at hrun
      cases hstep : (behind e outer v).step b with
      | more next =>
        exact .inr ⟨[], b, text, rfl, blank_nil, isSeparator_of_step_behind hblank hstep⟩
      | done w taken => simp [hstep] at hrun
      | broken fault taken => simp [hstep] at hrun

/-- No document begins with a separator. -/
theorem step_initial_separator (h : IsSeparator b) :
    State.initial.step b = .broken .expectedValue true := by
  rcases h with rfl | rfl | rfl <;> rfl

end State

end EnvelopeClient.Json
