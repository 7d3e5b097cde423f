import EnvelopeClient.Proofs.Json.Nesting
import Mathlib.Data.List.TakeWhile

/-!
# Object documents

A `Document` is the text of one object: it stands between braces, and read by itself it is a value.
Its text but for the last brace is a passage, whatever is in it (`Document.passes`), because a
reader inside a container cannot come to the end of the document before the outermost brace. One
condition is about cutting: a number that goes on may be in range as a whole and too large where it
is cut, which breaks the text there.
-/

namespace EnvelopeClient.Json

/-- The text of one object. -/
structure Document (text : List UInt8) (v : Value) : Prop where
  opens : text.head? = some 0x7b
  closes : text.getLast? = some 0x7d
  /-- By itself it is read as the value. -/
  reads : Value.ofText text = .ok v
  /-- No number of it is too large, wherever the text is cut. -/
  inRange : ∀ q, q <+: text → ∀ index, scan .initial 0 q ≠ .broken .numberOutOfRange index

/-- The end of a text within a container does not complete a document. -/
theorem finish_ne_complete {s : State} (h : s.Inside) (index : Nat) (v : Value)
    (rest : List UInt8) : s.finish index ≠ .complete v rest := by
  rcases State.finish_of_inside h with ⟨what, hfinish⟩ | hfinish
  · rw [hfinish]
    intro hc
    cases hc
  · rw [hfinish]
    intro hc
    cases hc

/-- A document that is read from inside a container ends with a byte of its own. -/
theorem run?_of_scan {s : State} {index : Nat} {text rest : List UInt8} {v : Value}
    (h : s.Inside) (hscan : scan s index text = .complete v rest) :
    ∃ p b t, text = p ++ b :: rest ∧ s.run? p = some t ∧ t.step b = .done v true := by
  induction text generalizing s index with
  | nil => exact absurd hscan (finish_ne_complete h index v rest)
  | cons b text ih =>
    rw [scan] at hscan
    cases hstep : s.step b with
    | more t =>
      rw [hstep] at hscan
      obtain ⟨p, c, u, rfl, hrun, hdone⟩ := ih (State.inside_step h hstep) hscan
      exact ⟨b :: p, c, u, rfl, by rw [State.run?, hstep]; exact hrun, hdone⟩
    | done w taken =>
      cases taken with
      | false => exact absurd hstep ((State.stays_step h b).2 w)
      | true =>
        rw [hstep] at hscan
        cases hscan
        exact ⟨[], b, s, rfl, rfl, hstep⟩
    | broken fault taken =>
      rw [hstep] at hscan
      cases taken <;> cases hscan

/-- A run inside a container is a passage if no number is too large where it is cut. -/
theorem passes_of_inside {s t : State} {index : Nat} {p : List UInt8} (h : s.Inside)
    (hrun : s.run? p = some t)
    (hrange : ∀ q, q <+: p → ∀ place, scan s index q ≠ .broken .numberOutOfRange place) :
    s.Passes p t := by
  induction p generalizing s index with
  | nil =>
    obtain rfl : s = t := by simpa [State.run?] using hrun
    exact .nil s
  | cons b p ih =>
    rw [State.run?] at hrun
    cases hstep : s.step b with
    | more u =>
      rw [hstep] at hrun
      have hinside := State.inside_step h hstep
      have hrest : ∀ q, q <+: p → ∀ place,
          scan u (index + 1) q ≠ .broken .numberOutOfRange place := by
        intro q hq place
        have hcut := hrange (b :: q) (List.cons_prefix_cons.mpr ⟨rfl, hq⟩) place
        rwa [scan, hstep] at hcut
      have hopen : u.Unfinished := by
        rcases State.finish_of_inside hinside with hopen | hlarge
        · exact hopen
        · exact absurd (hlarge (index + 1)) (hrest [] List.nil_prefix (index + 1))
      exact .cons hstep hopen (ih hinside hrun hrest)
    | done v taken => simp [hstep] at hrun
    | broken fault taken => simp [hstep] at hrun

namespace Document

variable {text : List UInt8} {v : Value}

theorem ne_nil (h : Document text v) : text ≠ [] := by
  rintro rfl
  cases h.opens

/-- A document is read to its last byte. -/
theorem scan_eq (h : Document text v) : scan .initial 0 text = .complete v [] := by
  have hreads := h.reads
  rw [Value.ofText] at hreads
  cases hscan : scan .initial 0 text with
  | complete w rest =>
    rw [hscan] at hreads
    cases hextra : rest.dropWhile isBlank with
    | nil =>
      simp only [hextra, Except.ok.injEq] at hreads
      subst hreads
      -- what is behind the value is blank, and the last byte is not
      rcases List.eq_nil_or_concat rest with rfl | ⟨front, b, rfl⟩
      · rfl
      · obtain ⟨before, hbefore⟩ := scan_complete_suffix hscan
        have hlast : b = 0x7d := by
          have hcloses := h.closes
          rw [← hbefore] at hcloses
          simpa using hcloses
        have hblank := List.dropWhile_eq_nil_iff.mp hextra b (by simp)
        rw [hlast] at hblank
        cases hblank
    | cons b extra => simp [hextra] at hreads
  | blank => simp [hscan] at hreads
  | incomplete what => simp [hscan] at hreads
  | broken fault index => simp [hscan] at hreads

/-- A document begins with its brace. -/
theorem exists_cons (h : Document text v) : ∃ rest, text = 0x7b :: rest :=
  List.head?_eq_some_iff.mp h.opens

/-- Behind its first brace a document is read up to its last byte, which closes it. -/
theorem run?_firstKey {rest : List UInt8} (h : Document (0x7b :: rest) v) :
    ∃ p b t, rest = p ++ [b] ∧ State.run? ⟨[], .firstKey⟩ p = some t ∧ t.step b = .done v true := by
  have hstep : State.initial.step 0x7b = .more ⟨[], .firstKey⟩ := rfl
  have hscan := h.scan_eq
  rw [scan, hstep] at hscan
  exact run?_of_scan (State.inside_of_mode rfl rfl) hscan

/-- The text of a document but for its last byte is a passage, and that byte closes the document. -/
theorem passes (h : Document text v) :
    ∃ p b t, text = p ++ [b] ∧ State.Passes .initial p t ∧ t.step b = .done v true := by
  obtain ⟨rest, rfl⟩ := h.exists_cons
  obtain ⟨p, b, t, rfl, hrun, hdone⟩ := h.run?_firstKey
  have hstep : State.initial.step 0x7b = .more ⟨[], .firstKey⟩ := rfl
  have hrange : ∀ q, q <+: p → ∀ place,
      scan ⟨[], .firstKey⟩ 1 q ≠ .broken .numberOutOfRange place := by
    intro q hq place
    have hprefix : 0x7b :: q <+: 0x7b :: (p ++ [b]) :=
      List.cons_prefix_cons.mpr ⟨rfl, hq.trans (List.prefix_append p [b])⟩
    have hcut := h.inRange _ hprefix place
    rwa [scan, hstep] at hcut
  have hpass := passes_of_inside (State.inside_of_mode rfl rfl) hrun hrange
  exact ⟨0x7b :: p, b, t, rfl, .cons hstep ⟨.object, fun _ => rfl⟩ hpass, hdone⟩

/-- A part of a document leads to an unfinished state. -/
theorem part (h : Document text v) {q : List UInt8} (hq : q <+: text) (hne : q ≠ [])
    (hproper : q ≠ text) : ∃ t, State.initial.run? q = some t ∧ t.Unfinished := by
  obtain ⟨p, b, t, rfl, hpass, -⟩ := h.passes
  rcases List.prefix_concat_iff.mp hq with heq | hpart
  · exact absurd heq hproper
  · exact hpass.of_prefix hpart hne

/-- Every text between braces that is a passage up to its last one is a document. -/
theorem of_passes {p : List UInt8} {t : State} (hopens : p.head? = some 0x7b)
    (hpass : State.Passes .initial p t) (hdone : t.step 0x7d = .done v true) :
    Document (p ++ [0x7d]) v := by
  have hscan : scan .initial 0 (p ++ [0x7d]) = .complete v [] := by
    rw [scan_of_passes hpass, scan, hdone]
  refine ⟨by rw [List.head?_append, hopens]; rfl, by simp, ?_, ?_⟩
  · rw [Value.ofText, hscan]
    rfl
  · intro q hq place hbroken
    rcases List.prefix_concat_iff.mp hq with rfl | hpart
    · rw [hscan] at hbroken
      cases hbroken
    · by_cases hnil : q = []
      · subst hnil
        cases hbroken
      · obtain ⟨what, hincomplete⟩ := scan_of_prefix hpass hpart hnil 0
        rw [hincomplete] at hbroken
        cases hbroken

end Document

end EnvelopeClient.Json
