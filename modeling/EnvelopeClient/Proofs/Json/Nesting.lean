import EnvelopeClient.Proofs.Json.Passage

/-!
# Inside a container

A reader that is inside a container (`State.Inside`) can come to the end of its document only by
the bracket that closes the outermost container, and what it does does not depend on containers
around that one: `State.step_within` compares it with a reader that has more containers open below,
which differs only at that bracket and where no further container may open. So a document can be
followed through the texts it is a part of, from the inside out (`scan_within`) and from the outside
in (`run?_of_within`).
-/

namespace EnvelopeClient.Json

/-- Whether a mode is a place between the brackets of the innermost container. -/
def Mode.isInContainer : Mode → Bool
  | .firstItem | .nextItem _ | .afterItem _ => true
  | .firstKey | .nextKey _ | .afterKey _ _ | .afterMember _ | .string (.key _) _ => true
  | .value | .word _ _ | .number _ | .string .value _ => false

/-- Whether no brace is still to come in the word it is in. -/
def Mode.isSpelled : Mode → Bool
  | .word _ left => !left.contains 0x7b
  | _ => true

namespace State

/-- A state inside a container, and not within a word that does not exist. -/
structure Inside (s : State) : Prop where
  opened : (!s.enclosing.isEmpty || s.mode.isInContainer) = true
  spelled : s.mode.isSpelled = true

/-- The state with more containers open below. -/
def within (s : State) (outer : List Enclosing) : State := ⟨s.enclosing ++ outer, s.mode⟩

end State

/-- A step with more containers open below: what completes the document is a value of theirs. -/
def Step.within (outer : List Enclosing) : Step → Step
  | .more s => .more (s.within outer)
  | .done v _ => State.deliverTaken outer v
  | .broken fault taken => .broken fault taken

namespace State

variable {s t : State} {b : UInt8} {v : Value}

theorem inside_of_mode {enclosing : List Enclosing} {mode : Mode}
    (h : mode.isInContainer = true) (hspelled : mode.isSpelled = true) :
    Inside ⟨enclosing, mode⟩ :=
  ⟨by simp [h], hspelled⟩

/-- A reader inside a container that is not between its brackets has it on the stack. -/
theorem exists_enclosing {enclosing : List Enclosing} {mode : Mode}
    (h : Inside ⟨enclosing, mode⟩) (hmode : mode.isInContainer = false) :
    ∃ e outer, enclosing = e :: outer := by
  cases enclosing with
  | nil => simpa [hmode] using h.opened
  | cons e outer => exact ⟨e, outer, rfl⟩

theorem inside_string {enclosing : List Enclosing} {role : StringRole} {text : StringText}
    (h : Inside ⟨enclosing, .string role text⟩) (next : StringText) :
    Inside ⟨enclosing, .string role next⟩ := by
  cases role <;> exact ⟨h.opened, rfl⟩

/-! ### One step with more containers open below -/

theorem deliverTaken_within (enclosing outer : List Enclosing) (v : Value) :
    deliverTaken (enclosing ++ outer) v = (deliverTaken enclosing v).within outer := by
  cases enclosing with
  | nil => rfl
  | cons e rest => cases e <;> rfl

theorem afterItem_within (enclosing outer : List Enclosing) (items : List Value) (b : UInt8) :
    afterItem (enclosing ++ outer) items b = (afterItem enclosing items b).within outer := by
  simp only [afterItem, deliverTaken_within]
  repeat' split
  all_goals rfl

theorem afterMember_within (enclosing outer : List Enclosing) (members : Members) (b : UInt8) :
    afterMember (enclosing ++ outer) members b =
      (afterMember enclosing members b).within outer := by
  simp only [afterMember, deliverTaken_within]
  repeat' split
  all_goals rfl

/-- A value begins in the same way unless there are too many containers around it. -/
theorem beginValue_within (enclosing outer : List Enclosing) (b : UInt8) :
    beginValue (enclosing ++ outer) b = (beginValue enclosing b).within outer ∨
      beginValue (enclosing ++ outer) b = .broken .recursionLimit true := by
  by_cases hdeep : depthLimit ≤ (enclosing ++ outer).length
  · by_cases hbrace : b = 0x7b
    · exact .inr (by simp only [beginValue, if_pos hbrace, if_pos hdeep])
    · by_cases hbracket : b = 0x5b
      · exact .inr (by simp only [beginValue, if_neg hbrace, if_pos hbracket, if_pos hdeep])
      · left
        simp only [beginValue, if_neg hbrace, if_neg hbracket]
        repeat' split
        all_goals rfl
  · have hroom : ¬depthLimit ≤ enclosing.length := by
      rw [List.length_append] at hdeep
      omega
    left
    simp only [beginValue, if_neg hdeep, if_neg hroom]
    repeat' split
    all_goals rfl

/-- More containers below change nothing, but that the document does not end with its outermost
bracket, and that one more container may be one too many. -/
theorem step_within (h : s.Inside) (outer : List Enclosing) (b : UInt8) :
    (s.within outer).step b = (s.step b).within outer ∨
      (s.within outer).step b = .broken .recursionLimit true := by
  obtain ⟨enclosing, mode⟩ := s
  cases mode with
  | value =>
    simp only [within, step]
    by_cases hblank : isBlank b = true
    · exact .inl (by simp only [if_pos hblank]; rfl)
    · simp only [if_neg hblank]
      exact beginValue_within enclosing outer b
  | firstItem =>
    simp only [within, step]
    by_cases hblank : isBlank b = true
    · exact .inl (by simp only [if_pos hblank]; rfl)
    · simp only [if_neg hblank]
      by_cases hclose : b = 0x5d
      · exact .inl (by simp only [if_pos hclose, deliverTaken_within])
      · simp only [if_neg hclose]
        exact beginValue_within (.list [] :: enclosing) outer b
  | nextItem items =>
    simp only [within, step]
    by_cases hblank : isBlank b = true
    · exact .inl (by simp only [if_pos hblank]; rfl)
    · simp only [if_neg hblank]
      by_cases hclose : b = 0x5d
      · exact .inl (by simp only [if_pos hclose]; rfl)
      · simp only [if_neg hclose]
        exact beginValue_within (.list items :: enclosing) outer b
  | afterItem items => exact .inl (afterItem_within enclosing outer items b)
  | firstKey =>
    simp only [within, step]
    left
    simp only [deliverTaken_within]
    repeat' split
    all_goals rfl
  | nextKey members =>
    simp only [within, step]
    left
    repeat' split
    all_goals rfl
  | afterKey members key =>
    simp only [within, step]
    left
    repeat' split
    all_goals rfl
  | afterMember members => exact .inl (afterMember_within enclosing outer members b)
  | word v left =>
    simp only [within, step]
    left
    simp only [deliverTaken_within]
    repeat' split
    all_goals rfl
  | number n =>
    simp only [within, step]
    -- a number inside a container ends behind an item or a member of it
    obtain ⟨e, rest, rfl⟩ := exists_enclosing h rfl
    left
    cases n.step b with
    | more n => rfl
    | broken fault => rfl
    | ended =>
      cases n.value? with
      | none => rfl
      | some value =>
        cases e with
        | list items => exact afterItem_within rest outer _ b
        | object members key => exact afterMember_within rest outer _ b
  | string role text =>
    simp only [within, step]
    left
    cases text.step b with
    | more text => rfl
    | broken fault => rfl
    | closed content =>
      cases role with
      | value => exact deliverTaken_within enclosing outer _
      | key members => rfl

/-! ### One step inside a container -/

theorem more_of_beginValue {enclosing : List Enclosing}
    (h : beginValue enclosing b = .more t) : t.enclosing = enclosing ∧ t.mode.isSpelled = true := by
  unfold beginValue at h
  repeat' split at h
  all_goals cases h
  all_goals exact ⟨rfl, rfl⟩

/-- The step stays inside, or completes the document with the byte, or is broken. -/
def Stays (r : Step) : Prop :=
  (∀ t, r = .more t → t.Inside) ∧ ∀ v, r ≠ .done v false

theorem stays_deliverTaken (enclosing : List Enclosing) (v : Value) :
    Stays (deliverTaken enclosing v) := by
  cases enclosing with
  | nil =>
    constructor
    · intro t h
      cases h
    · intro w h
      cases h
  | cons e outer =>
    rw [deliverTaken_cons]
    constructor
    · intro t h
      cases h
      cases e <;> exact inside_of_mode rfl rfl
    · intro w h
      cases h

theorem stays_more (h : t.Inside) : Stays (.more t) := by
  refine ⟨fun u hu => ?_, fun v hv => by cases hv⟩
  cases hu
  exact h

theorem stays_broken (fault : Fault) (taken : Bool) : Stays (.broken fault taken) := by
  constructor
  · intro t h
    cases h
  · intro v h
    cases h

theorem stays_beginValue (e : Enclosing) (outer : List Enclosing) (b : UInt8) :
    Stays (beginValue (e :: outer) b) := by
  refine ⟨fun t h => ?_, fun v => beginValue_ne_done _ b v false⟩
  obtain ⟨henclosing, hspelled⟩ := more_of_beginValue h
  exact ⟨by simp [henclosing], hspelled⟩

theorem stays_afterItem (enclosing : List Enclosing) (items : List Value) (b : UInt8) :
    Stays (afterItem enclosing items b) := by
  unfold afterItem
  repeat' split
  · exact stays_more (inside_of_mode rfl rfl)
  · exact stays_more (inside_of_mode rfl rfl)
  · exact stays_deliverTaken _ _
  · exact stays_broken _ _

theorem stays_afterMember (enclosing : List Enclosing) (members : Members) (b : UInt8) :
    Stays (afterMember enclosing members b) := by
  unfold afterMember
  repeat' split
  · exact stays_more (inside_of_mode rfl rfl)
  · exact stays_more (inside_of_mode rfl rfl)
  · exact stays_deliverTaken _ _
  · exact stays_broken _ _

/-- The document of a reader inside a container ends only with a bracket. -/
theorem stays_step (h : s.Inside) (b : UInt8) : Stays (s.step b) := by
  obtain ⟨enclosing, mode⟩ := s
  cases mode with
  | value =>
    simp only [step]
    obtain ⟨e, outer, rfl⟩ := exists_enclosing h rfl
    split
    · exact stays_more h
    · exact stays_beginValue e outer b
  | firstItem =>
    simp only [step]
    repeat' split
    · exact stays_more h
    · exact stays_deliverTaken _ _
    · exact stays_beginValue _ _ b
  | nextItem items =>
    simp only [step]
    repeat' split
    · exact stays_more h
    · exact stays_broken _ _
    · exact stays_beginValue _ _ b
  | afterItem items => exact stays_afterItem _ _ b
  | firstKey =>
    simp only [step]
    repeat' split
    · exact stays_more h
    · exact stays_deliverTaken _ _
    · exact stays_more (inside_of_mode rfl rfl)
    · exact stays_broken _ _
  | nextKey members =>
    simp only [step]
    repeat' split
    · exact stays_more h
    · exact stays_broken _ _
    · exact stays_more (inside_of_mode rfl rfl)
    · exact stays_broken _ _
  | afterKey members key =>
    simp only [step]
    repeat' split
    · exact stays_more h
    · exact stays_more ⟨rfl, rfl⟩
    · exact stays_broken _ _
  | afterMember members => exact stays_afterMember _ _ b
  | word v left =>
    simp only [step]
    obtain ⟨e, outer, rfl⟩ := exists_enclosing h rfl
    cases left with
    | nil => exact stays_broken _ _
    | cons c rest =>
      have hspelled : Mode.isSpelled (.word v rest) = true := by
        have hall := h.spelled
        simp only [Mode.isSpelled, List.contains_cons, Bool.not_or, Bool.and_eq_true] at hall
        exact hall.2
      simp only
      repeat' split
      · exact stays_broken _ _
      · exact stays_deliverTaken _ _
      · exact stays_more ⟨rfl, hspelled⟩
  | number n =>
    simp only [step]
    obtain ⟨e, outer, rfl⟩ := exists_enclosing h rfl
    cases n.step b with
    | more n => exact stays_more ⟨rfl, rfl⟩
    | broken fault => exact stays_broken _ _
    | ended =>
      cases n.value? with
      | none => exact stays_broken _ _
      | some value =>
        cases e with
        | list items => exact stays_afterItem _ _ b
        | object members key => exact stays_afterMember _ _ b
  | string role text =>
    simp only [step]
    cases text.step b with
    | more text => exact stays_more (inside_string h text)
    | broken fault => exact stays_broken _ _
    | closed content =>
      cases role with
      | value => exact stays_deliverTaken _ _
      | key members => exact stays_more (inside_of_mode rfl rfl)

theorem inside_step (h : s.Inside) (hstep : s.step b = .more t) :
    t.Inside :=
  (stays_step h b).1 t hstep

theorem inside_run? {p : List UInt8} (h : s.Inside) (hrun : s.run? p = some t) :
    t.Inside := by
  induction p generalizing s with
  | nil =>
    obtain rfl : s = t := by simpa [run?] using hrun
    exact h
  | cons b p ih =>
    rw [run?] at hrun
    cases hstep : s.step b with
    | more u =>
      rw [hstep] at hrun
      exact ih (inside_step h hstep) hrun
    | done v taken => simp [hstep] at hrun
    | broken fault taken => simp [hstep] at hrun

/-- A text that ends inside a container is incomplete, or in a number that is too large. -/
theorem finish_of_inside (h : s.Inside) :
    s.Unfinished ∨ ∀ index, s.finish index = .broken .numberOutOfRange index := by
  obtain ⟨enclosing, mode⟩ := s
  cases mode with
  | value =>
    obtain ⟨e, outer, rfl⟩ := exists_enclosing h rfl
    exact .inl (unfinished_value e outer)
  | firstItem | afterItem _ => exact .inl ⟨.list, fun _ => rfl⟩
  | nextItem _ | nextKey _ | word _ _ => exact .inl ⟨.value, fun _ => rfl⟩
  | firstKey | afterKey _ _ | afterMember _ => exact .inl ⟨.object, fun _ => rfl⟩
  | string role text => exact .inl (unfinished_string _ _ _)
  | number n =>
    obtain ⟨e, outer, rfl⟩ := exists_enclosing h rfl
    cases hwhole : n.isWhole with
    | false => exact .inl ⟨.value, fun _ => by simp [finish, hwhole]⟩
    | true =>
      cases hvalue : n.value? with
      | none => exact .inr fun index => by simp [finish, hwhole, hvalue]
      | some value => exact .inl (unfinished_number e outer fun _ => ⟨value, hvalue⟩)

/-! ### A document among the texts around it -/

variable {p : List UInt8}

theorem run?_append (s : State) (p q : List UInt8) :
    s.run? (p ++ q) = (s.run? p).bind fun t => t.run? q := by
  induction p generalizing s with
  | nil => rfl
  | cons b p ih =>
    simp only [List.cons_append, run?]
    cases s.step b with
    | more t => exact ih t
    | done v taken => rfl
    | broken fault taken => rfl

/-- The rest of a document, read with more containers open below, is read as one of their values,
unless it nests too deep there. -/
theorem scan_within (h : s.Inside) (hrun : s.run? p = some t)
    (hdone : t.step b = .done v true) (e : Enclosing) (outer : List Enclosing) :
    (s.within (e :: outer)).run? (p ++ [b]) = some (behind e outer v) ∨
      ∀ index rest, ∃ place, scan (s.within (e :: outer)) index (p ++ b :: rest) =
        .broken .recursionLimit place := by
  induction p generalizing s with
  | nil =>
    obtain rfl : s = t := by simpa [run?] using hrun
    rcases step_within h (e :: outer) b with heq | hdeep
    · left
      rw [hdone, Step.within, deliverTaken_cons] at heq
      simp [run?, heq]
    · exact .inr fun index rest => ⟨index + 1, by simp [scan, hdeep]⟩
  | cons c p ih =>
    rw [run?] at hrun
    cases hstep : s.step c with
    | more u =>
      rw [hstep] at hrun
      rcases step_within h (e :: outer) c with heq | hdeep
      · rw [hstep, Step.within] at heq
        rcases ih (inside_step h hstep) hrun with hall | hbroken
        · exact .inl (by rw [List.cons_append, run?, heq]; exact hall)
        · right
          intro index rest
          obtain ⟨place, hplace⟩ := hbroken (index + 1) rest
          exact ⟨place, by rw [List.cons_append, scan, heq]; exact hplace⟩
      · exact .inr fun index rest => ⟨index + 1, by simp [scan, hdeep]⟩
    | done v taken => simp [hstep] at hrun
    | broken fault taken => simp [hstep] at hrun

/-- A text that is read with more containers open below is read without them as well, up to the end
of the document if it comes to that. -/
theorem run?_of_within {text : List UInt8} {outer : List Enclosing} {u : State}
    (h : s.Inside) (hrun : (s.within outer).run? text = some u) :
    (∃ t, s.run? text = some t ∧ t.Inside ∧ u = t.within outer) ∨
      ∃ p b rest t v next, text = p ++ b :: rest ∧ s.run? p = some t ∧ t.step b = .done v true ∧
        deliverTaken outer v = .more next ∧ next.run? rest = some u := by
  induction text generalizing s with
  | nil =>
    obtain rfl : s.within outer = u := by simpa [run?] using hrun
    exact .inl ⟨s, rfl, h, rfl⟩
  | cons c text ih =>
    rw [run?] at hrun
    rcases step_within h outer c with heq | hdeep
    · rw [heq] at hrun
      cases hstep : s.step c with
      | more t =>
        rw [hstep] at hrun
        rcases ih (inside_step h hstep) hrun with ⟨t', hrun', hinside, rfl⟩ |
          ⟨p, b, rest, t', v, next, rfl, hrun', hdone, hnext, hrest⟩
        · exact .inl ⟨t', by rw [run?, hstep]; exact hrun', hinside, rfl⟩
        · exact .inr ⟨c :: p, b, rest, t', v, next, rfl, by rw [run?, hstep]; exact hrun', hdone,
            hnext, hrest⟩
      | done v taken =>
        cases taken with
        | false => exact absurd hstep ((stays_step h c).2 v)
        | true =>
          rw [hstep, Step.within] at hrun
          cases hnext : deliverTaken outer v with
          | more next =>
            rw [hnext] at hrun
            exact .inr ⟨[], c, text, s, v, next, rfl, rfl, hstep, hnext, hrun⟩
          | done w taken => simp [hnext] at hrun
          | broken fault taken => simp [hnext] at hrun
      | broken fault taken => simp [hstep, Step.within] at hrun
    · simp [hdeep] at hrun

end State

end EnvelopeClient.Json
