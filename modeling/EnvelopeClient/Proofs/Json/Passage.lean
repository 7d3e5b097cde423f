import EnvelopeClient.Json.Reader

/-!
# Passages of the reader

`State.Passes s text t` says that reading `text` takes the machine from `s` to `t` and that the
document goes on at every byte: wherever the text is cut, what was read so far is an unfinished
document and never a complete or a broken one. So a passage is both halves of what a stream needs to
know about a text, and passages compose (`Passes.append`), which is how the passage of a whole
document is built from those of its parts.

* `State.Unfinished`: the end of the text would be an incomplete document.
* `scan_of_passes`, `scan_of_prefix`: what reading makes of a passage and of a part of one.
-/

namespace EnvelopeClient.Json

namespace State

/-- A text that ends here is an incomplete document. -/
def Unfinished (s : State) : Prop :=
  ∃ what, ∀ index, s.finish index = .incomplete what

theorem unfinished_string (enclosing : List Enclosing) (role : StringRole) (text : StringText) :
    Unfinished ⟨enclosing, .string role text⟩ := ⟨.string, fun _ => rfl⟩

theorem unfinished_word (enclosing : List Enclosing) (v : Value) (left : List UInt8) :
    Unfinished ⟨enclosing, .word v left⟩ := ⟨.value, fun _ => rfl⟩

/-- Inside a container a value has to come. -/
theorem unfinished_value (e : Enclosing) (outer : List Enclosing) :
    Unfinished ⟨e :: outer, .value⟩ := ⟨.value, fun _ => rfl⟩

/-- Inside a container a number that is in range does not end the document. -/
theorem unfinished_number (e : Enclosing) (outer : List Enclosing) {n : Numeral}
    (h : n.isWhole = true → ∃ value, n.value? = some value) :
    Unfinished ⟨e :: outer, .number n⟩ := by
  cases hwhole : n.isWhole with
  | false => exact ⟨.value, fun _ => by simp [finish, hwhole]⟩
  | true =>
    obtain ⟨value, hvalue⟩ := h hwhole
    cases e with
    | list items => exact ⟨.list, fun _ => by simp [finish, hwhole, hvalue]⟩
    | object members key => exact ⟨.object, fun _ => by simp [finish, hwhole, hvalue]⟩

/-- Reading a text goes from one state to another through unfinished states only. -/
inductive Passes : State → List UInt8 → State → Prop
  | nil (s : State) : Passes s [] s
  | cons {s t u : State} {b : UInt8} {text : List UInt8} (hstep : s.step b = .more t)
      (hopen : t.Unfinished) (hrest : Passes t text u) : Passes s (b :: text) u

namespace Passes

variable {s t u : State} {p q : List UInt8}

/-- The passage of one byte. -/
theorem single {b : UInt8} (hstep : s.step b = .more t) (hopen : t.Unfinished) :
    Passes s [b] t :=
  cons hstep hopen (nil t)

/-- Passages compose. -/
theorem append (h : Passes s p t) (h' : Passes t q u) : Passes s (p ++ q) u := by
  induction h with
  | nil s => exact h'
  | cons hstep hopen _ ih => exact cons hstep hopen (ih h')

/-- A state that does the same at the first byte has the same passages. -/
theorem of_step_eq {s' : State} {b : UInt8} (h : Passes s (b :: p) t)
    (heq : s'.step b = s.step b) : Passes s' (b :: p) t := by
  cases h with
  | cons hstep hopen hrest => exact cons (heq.trans hstep) hopen hrest

/-- A passage is a run of the machine. -/
theorem run?_eq (h : Passes s p t) : s.run? p = some t := by
  induction h with
  | nil s => rfl
  | cons hstep _ _ ih => rw [run?, hstep]; exact ih

/-- Every part of a passage but the empty one leads to an unfinished state. -/
theorem of_prefix (h : Passes s p t) :
    ∀ {q : List UInt8}, q <+: p → q ≠ [] → ∃ u, s.run? q = some u ∧ u.Unfinished := by
  induction h with
  | nil s =>
    intro q hq hne
    exact absurd (List.prefix_nil.mp hq) hne
  | @cons s t u b text hstep hopen _ ih =>
    intro q hq hne
    cases q with
    | nil => exact absurd rfl hne
    | cons c q =>
      obtain ⟨rfl, htail⟩ := List.cons_prefix_cons.mp hq
      rw [run?, hstep]
      by_cases hnil : q = []
      · subst hnil
        exact ⟨t, rfl, hopen⟩
      · exact ih htail hnil

end Passes

end State

/-- Behind a passage, reading goes on from the state it leads to. -/
theorem scan_of_passes {s t : State} {p : List UInt8} (h : s.Passes p t) (index : Nat)
    (rest : List UInt8) : scan s index (p ++ rest) = scan t (index + p.length) rest :=
  scan_append h.run?_eq index rest

/-- A part of a passage is an incomplete document. -/
theorem scan_of_prefix {s t : State} {p q : List UInt8} (h : s.Passes p t) (hq : q <+: p)
    (hne : q ≠ []) (index : Nat) : ∃ what, scan s index q = .incomplete what := by
  obtain ⟨u, hrun, what, hfinish⟩ := h.of_prefix hq hne
  refine ⟨what, ?_⟩
  have hscan := scan_append hrun index []
  rw [List.append_nil] at hscan
  rw [hscan, scan, hfinish]

/-! ### Behind a value inside a container -/

namespace State

/-- The machine behind a value of the innermost container. -/
def behind (e : Enclosing) (outer : List Enclosing) (v : Value) : State :=
  match e with
  | .list items => ⟨outer, .afterItem (v :: items)⟩
  | .object members key => ⟨outer, .afterMember (members.insert key v)⟩

theorem deliverTaken_cons (e : Enclosing) (outer : List Enclosing) (v : Value) :
    deliverTaken (e :: outer) v = .more (behind e outer v) := by
  cases e <;> rfl

theorem unfinished_behind (e : Enclosing) (outer : List Enclosing) (v : Value) :
    (behind e outer v).Unfinished := by
  cases e with
  | list items => exact ⟨.list, fun _ => rfl⟩
  | object members key => exact ⟨.object, fun _ => rfl⟩

theorem afterNumber_cons (e : Enclosing) (outer : List Enclosing) (n : Number) (b : UInt8) :
    afterNumber (e :: outer) n b = (behind e outer (.number n)).step b := by
  cases e <;> rfl

/-- A comma or a closing bracket. -/
def IsSeparator (b : UInt8) : Prop := b = 0x2c ∨ b = 0x5d ∨ b = 0x7d

/-- A separator does the same in both states. A number shows its end only at the byte behind it, so
this is how far the machine behind a value's text can be told. -/
def EndsAs (s t : State) : Prop := ∀ b, IsSeparator b → s.step b = t.step b

theorem EndsAs.refl (s : State) : EndsAs s s := fun _ _ => rfl

end State

/-! ### Blanks before a document -/

/-- A text of blanks. -/
def Blank (bytes : List UInt8) : Prop := ∀ b ∈ bytes, isBlank b = true

theorem blank_nil : Blank [] := fun b hb => by cases hb

theorem blank_append {blanks more : List UInt8} (h : Blank blanks) (h' : Blank more) :
    Blank (blanks ++ more) := by
  intro b hb
  rcases List.mem_append.mp hb with hb | hb
  · exact h b hb
  · exact h' b hb

theorem blank_of_append_left {blanks more : List UInt8} (h : Blank (blanks ++ more)) : Blank blanks :=
  fun b hb => h b (List.mem_append_left more hb)

theorem blank_of_append_right {blanks more : List UInt8} (h : Blank (blanks ++ more)) : Blank more :=
  fun b hb => h b (List.mem_append_right blanks hb)

/-- Blanks leave the machine before the document. -/
theorem run?_initial_of_blank {blanks : List UInt8} (h : Blank blanks) :
    State.initial.run? blanks = some .initial := by
  induction blanks with
  | nil => rfl
  | cons b rest ih =>
    have hb : isBlank b = true := h b (by simp)
    have hrest : Blank rest := by
      intro c hc
      exact h c (by simp [hc])
    rw [State.run?, State.step, State.initial]
    simp only [hb, if_true]
    exact ih hrest

/-- Blanks before a document do not matter to what is read, only to where. -/
theorem scan_blank_append {blanks : List UInt8} (h : Blank blanks) (index : Nat)
    (rest : List UInt8) :
    scan .initial index (blanks ++ rest) = scan .initial (index + blanks.length) rest :=
  scan_append (run?_initial_of_blank h) index rest

theorem firstByte?_blank_append {blanks : List UInt8} (h : Blank blanks) (rest : List UInt8) :
    firstByte? (blanks ++ rest) = firstByte? rest := by
  have hnone : blanks.find? (fun b => !isBlank b) = none := by
    rw [List.find?_eq_none]
    intro b hb
    simp [h b hb]
  rw [firstByte?, List.find?_append, hnone, Option.none_or, firstByte?]

/-- A buffer of blanks holds no document. -/
theorem front_of_blank {blanks : List UInt8} (h : Blank blanks) :
    Reading.front blanks = .blank := by
  have hscan := scan_blank_append h 0 []
  rw [List.append_nil] at hscan
  rw [Reading.front, hscan]
  rfl

end EnvelopeClient.Json
