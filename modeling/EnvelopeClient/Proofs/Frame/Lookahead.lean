import EnvelopeClient.Proofs.Frame.Cuts

/-!
# Nothing behind a document is looked at

An object, an array and a string show their own end: the reader takes the closing byte and stops
there (`exists_closing`), so whatever comes behind it, be it another document, an invalid byte or
nothing at all, changes neither the document nor where it ends (`decode_append`). A number or a word
shows its end only at the byte behind it; that byte is all that is looked at, so such a document
stays the same as well once something stands behind it.
-/

namespace EnvelopeClient.Json

/-- A text that ends with a byte of its own is the same document whatever follows. -/
theorem scan_of_closing {s t : State} {p : List UInt8} {b : UInt8} {v : Value}
    (hrun : s.run? p = some t) (hdone : t.step b = .done v true) (index : Nat)
    (rest : List UInt8) : scan s index (p ++ b :: rest) = .complete v rest := by
  rw [scan_append hrun, scan, hdone]

/-- A string that is a document of its own ends with its closing quote. -/
theorem run?_of_scan_string {text : StringText} {index : Nat} {bytes rest : List UInt8} {v : Value}
    (hscan : scan ⟨[], .string .value text⟩ index bytes = .complete v rest) :
    ∃ p b t, bytes = p ++ b :: rest ∧ State.run? ⟨[], .string .value text⟩ p = some t ∧
      t.step b = .done v true := by
  induction bytes generalizing text index with
  | nil => cases hscan
  | cons b bytes ih =>
    rw [scan] at hscan
    cases htext : text.step b with
    | more next =>
      have hstep : State.step ⟨[], .string .value text⟩ b = .more ⟨[], .string .value next⟩ := by
        simp only [State.step, htext]
      rw [hstep] at hscan
      obtain ⟨p, c, t, rfl, hrun, hdone⟩ := ih hscan
      exact ⟨b :: p, c, t, rfl, by rw [State.run?, hstep]; exact hrun, hdone⟩
    | closed content =>
      have hstep : State.step ⟨[], .string .value text⟩ b = .done (.string content) true := by
        simp only [State.step, htext]
        rfl
      rw [hstep] at hscan
      cases hscan
      exact ⟨[], b, _, rfl, rfl, hstep⟩
    | broken fault =>
      have hstep : State.step ⟨[], .string .value text⟩ b = .broken fault true := by
        simp only [State.step, htext]
      rw [hstep] at hscan
      cases hscan

/-- A document that opens with a brace, a bracket or a quote ends with a byte of its own. -/
theorem exists_closing {index : Nat} {bytes rest : List UInt8} {v : Value} {first : UInt8}
    (hfirst : firstByte? bytes = some first) (hopens : isDelimited first = true)
    (hscan : scan .initial index bytes = .complete v rest) :
    ∃ p b t, bytes = p ++ b :: rest ∧ State.initial.run? p = some t ∧ t.step b = .done v true := by
  induction bytes generalizing index with
  | nil => cases hfirst
  | cons b bytes ih =>
    have hbehind : ∀ {s : State}, State.initial.step b = .more s →
        (∃ p c t, bytes = p ++ c :: rest ∧ s.run? p = some t ∧ t.step c = .done v true) →
        ∃ p c t, b :: bytes = p ++ c :: rest ∧ State.initial.run? p = some t ∧
          t.step c = .done v true := by
      rintro s hstep ⟨p, c, t, rfl, hrun, hdone⟩
      exact ⟨b :: p, c, t, rfl, by rw [State.run?, hstep]; exact hrun, hdone⟩
    rw [scan] at hscan
    cases hblank : isBlank b with
    | true =>
      have hstep : State.initial.step b = .more .initial := if_pos hblank
      rw [hstep] at hscan
      rw [firstByte?, List.find?_cons_of_neg (by simp [hblank])] at hfirst
      exact hbehind hstep (ih hfirst hscan)
    | false =>
      rw [firstByte?, List.find?_cons_of_pos (by simp [hblank])] at hfirst
      cases hfirst
      -- what an opening byte leads to is inside a container or in a string
      simp only [isDelimited, Bool.or_eq_true, decide_eq_true_eq] at hopens
      rcases hopens with (rfl | rfl) | rfl
      · exact hbehind rfl (run?_of_scan (State.inside_of_mode rfl rfl) hscan)
      · exact hbehind rfl (run?_of_scan (State.inside_of_mode rfl rfl) hscan)
      · exact hbehind rfl (run?_of_scan_string hscan)

/-- What is found at the front of a buffer shows its own end or is set off by the byte behind it. -/
theorem setOff_of_front {bytes rest : List UInt8} {v : Value}
    (h : Reading.front bytes = .complete v rest) :
    ((firstByte? bytes).any isDelimited || rest.head?.all setsOff) = true := by
  rw [Reading.front, scan_of_front h] at h
  by_contra hopen
  simp only [hopen, if_false] at h
  cases h

/-- What is found at the front of a buffer is found there when more follows, if it shows its own end
or is not all there is. -/
theorem front_complete_append {bytes rest : List UInt8} {v : Value}
    (hends : (firstByte? bytes).any isDelimited = true ∨ rest ≠ [])
    (h : Reading.front bytes = .complete v rest) (more : List UInt8) :
    Reading.front (bytes ++ more) = .complete v (rest ++ more) := by
  have hscan := scan_of_front h
  have hmore : scan .initial 0 (bytes ++ more) = .complete v (rest ++ more) := by
    rcases hends with hopens | hrest
    · obtain ⟨first, hfirst, hopens⟩ : ∃ first, firstByte? bytes = some first ∧
          isDelimited first = true := by
        cases hfirst : firstByte? bytes with
        | none => simp [hfirst] at hopens
        | some first => exact ⟨first, rfl, by simpa [hfirst] using hopens⟩
      obtain ⟨p, b, t, rfl, hrun, hdone⟩ := exists_closing hfirst hopens hscan
      rw [List.append_assoc, List.cons_append]
      exact scan_of_closing hrun hdone 0 (rest ++ more)
    · exact scan_complete_append hscan hrest more
  have hends' : ((firstByte? bytes).any isDelimited || (rest ++ more).head?.all setsOff) = true := by
    rcases hends with hopens | hrest
    · rw [hopens, Bool.true_or]
    · obtain ⟨b, left, rfl⟩ := List.exists_cons_of_ne_nil hrest
      have hset := setOff_of_front h
      rwa [List.head?_cons] at hset
  rw [Reading.front, hmore, firstByte?_append_of_complete hscan more]
  exact if_pos hends'

end EnvelopeClient.Json

namespace EnvelopeClient.Frame

open Json

/-- **What comes behind a document changes neither its frame nor where it ends.** Where the buffer
opens with a brace, a bracket or a quote and a whole document is at its front, decoding it yields a
frame, and with any bytes behind the buffer the same frame, and those bytes behind what was left. The
same holds of every other document that is not all there is. -/
theorem decode_append {limit : Nat} {buffer rest : List UInt8} {v : Value}
    (hends : (∃ b, firstByte? buffer = some b ∧ (b = 0x7b ∨ b = 0x5b ∨ b = 0x22)) ∨ rest ≠ [])
    (h : Reading.front buffer = .complete v rest) :
    ∃ frame, decode limit buffer = (some frame, rest) ∧
      ∀ more, decode limit (buffer ++ more) = (some frame, rest ++ more) := by
  have hends' : (firstByte? buffer).any isDelimited = true ∨ rest ≠ [] := by
    refine hends.imp_left ?_
    rintro ⟨b, hfirst, rfl | rfl | rfl⟩ <;> rw [hfirst] <;> rfl
  refine ⟨ofDocument v, decode_of_complete h limit, fun more => ?_⟩
  exact decode_of_complete (front_complete_append hends' h more) limit

/-- An array with a number, and with a bracket and a quote in a string of it. -/
def bracketed : List UInt8 := Utf8.encode " [1.5e3,\"]\\\"\",[]]"

/-- Neither a bracket nor a byte that is no text changes it. -/
theorem decode_append_bracketed :
    ∃ frame, decode 4 bracketed = (some frame, []) ∧
      decode 4 (bracketed ++ [0x5d, 0xff]) = (some frame, [0x5d, 0xff]) := by
  have halone : isAlone bracketed = true := by decide +kernel
  obtain ⟨v, hfront⟩ := exists_of_isAlone halone
  obtain ⟨frame, hdecode, hmore⟩ := decode_append (.inl ⟨0x5b, rfl, .inr (.inl rfl)⟩) hfront
  exact ⟨frame, hdecode, hmore [0x5d, 0xff]⟩

-- a number at the very end of a buffer is the one thing that may still go on
example : (decode 4 [0x31]).2 = [] ∧ (decode 4 ([0x31] ++ [0x32, 0x20])).2 = [0x20] :=
  ⟨rfl, rfl⟩

end EnvelopeClient.Frame
