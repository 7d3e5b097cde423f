import EnvelopeClient.Proofs.Json.Passage
import Mathlib.Data.List.TakeWhile

/-!
# The document at the front of a buffer

Where the reader finds a document at the front of a buffer, the buffer is blanks, the text of that
document and the rest, and the text by itself is the document (`exists_text_of_front`). So what a
document takes up does not depend on what follows it, even where its end only shows at the byte
behind it, as that of a number does.

Where it finds none, the buffer is blank (`blank_of_front`), or blanks and an incomplete text
(`exists_text_of_incomplete`), or broken, and then it is broken at the same place whatever follows
(`front_broken_append`).
-/

namespace EnvelopeClient.Json

/-- Where a byte ends a number, the number may end without it. -/
theorem Numeral.isWhole_of_ended {n : Numeral} {b : UInt8} (h : n.step b = .ended) :
    n.isWhole = true := by
  cases hstage : n.stage <;> cases hdigit : digit? b <;>
    simp only [Numeral.step, hstage, hdigit] at h <;> simp only [Numeral.isWhole, hstage]
  all_goals first | cases h | skip
  all_goals (repeat' split at h) <;> cases h

namespace State

/-- Only the end of a number shows before the byte that is read. -/
theorem number_of_done {s : State} {b : UInt8} {v : Value} (h : s.step b = .done v false) :
    ∃ n value, s = ⟨[], .number n⟩ ∧ n.step b = .ended ∧ n.value? = some value ∧
      v = .number value := by
  have hdeliver : ∀ enclosing w, deliverTaken enclosing w ≠ .done v false := by
    intro enclosing w
    cases enclosing with
    | nil => intro heq; cases heq
    | cons e outer => cases e <;> intro heq <;> cases heq
  have hbegin : ∀ enclosing, beginValue enclosing b ≠ .done v false :=
    fun enclosing => beginValue_ne_done enclosing b v false
  have hitem : ∀ enclosing items, afterItem enclosing items b ≠ .done v false := by
    intro enclosing items
    unfold afterItem
    repeat' split
    all_goals first | exact hdeliver _ _ | (intro heq; cases heq)
  have hmember : ∀ enclosing members, afterMember enclosing members b ≠ .done v false := by
    intro enclosing members
    unfold afterMember
    repeat' split
    all_goals first | exact hdeliver _ _ | (intro heq; cases heq)
  obtain ⟨enclosing, mode⟩ := s
  cases mode with
  | number n =>
    simp only [step] at h
    cases hn : n.step b with
    | more n' => rw [hn] at h; cases h
    | broken fault => rw [hn] at h; cases h
    | ended =>
      rw [hn] at h
      cases hvalue : n.value? with
      | none => rw [hvalue] at h; cases h
      | some value =>
        rw [hvalue] at h
        cases enclosing with
        | nil =>
          cases h
          exact ⟨n, value, rfl, hn, hvalue, rfl⟩
        | cons e outer =>
          cases e with
          | list items => exact absurd h (hitem _ _)
          | object members key => exact absurd h (hmember _ _)
  | afterItem items => exact absurd h (hitem _ _)
  | afterMember members => exact absurd h (hmember _ _)
  | _ =>
    simp only [step] at h
    repeat' split at h
    all_goals first
      | cases h
      | exact absurd h (hdeliver _ _)
      | exact absurd h (hbegin _)

/-- The end of the text ends a document wherever it is. -/
theorem finish_of_complete {s : State} {index : Nat} {v : Value} {rest : List UInt8}
    (h : s.finish index = .complete v rest) :
    rest = [] ∧ ∀ place, s.finish place = .complete v [] := by
  obtain ⟨enclosing, mode⟩ := s
  cases mode with
  | number n =>
    simp only [finish] at h ⊢
    repeat' split at h
    all_goals cases h
    simp_all
  | _ =>
    simp only [finish] at h
    repeat' split at h
    all_goals cases h

end State

/-- A document ends where it would end if nothing followed. -/
theorem exists_text_of_scan {s : State} {index : Nat} {bytes rest : List UInt8} {v : Value}
    (h : scan s index bytes = .complete v rest) :
    ∃ text, bytes = text ++ rest ∧ ∀ place, scan s place text = .complete v [] := by
  induction bytes generalizing s index with
  | nil =>
    obtain ⟨rfl, hfinish⟩ := State.finish_of_complete h
    exact ⟨[], rfl, hfinish⟩
  | cons b bytes ih =>
    rw [scan] at h
    cases hstep : s.step b with
    | more t =>
      rw [hstep] at h
      obtain ⟨text, rfl, htext⟩ := ih h
      exact ⟨b :: text, rfl, fun place => by rw [scan, hstep]; exact htext _⟩
    | done w taken =>
      rw [hstep] at h
      cases taken with
      | true =>
        cases h
        exact ⟨[b], rfl, fun place => by rw [scan, hstep]⟩
      | false =>
        cases h
        obtain ⟨n, value, rfl, hended, hvalue, rfl⟩ := State.number_of_done hstep
        refine ⟨[], rfl, ?_⟩
        intro place
        simp [scan, State.finish, Numeral.isWhole_of_ended hended, hvalue]
    | broken fault taken =>
      rw [hstep] at h
      cases taken <;> cases h

/-- A document that is found is read there, whatever sets it off. -/
theorem scan_of_front {bytes rest : List UInt8} {v : Value}
    (h : Reading.front bytes = .complete v rest) : scan .initial 0 bytes = .complete v rest := by
  rw [Reading.front] at h
  split at h
  · next hscan =>
    split at h
    · cases h
      exact hscan
    · cases h
  · exact h

/-- The document at the front of a buffer stands behind blanks, and its text is that document also
where nothing follows it. -/
theorem exists_text_of_front {bytes rest : List UInt8} {v : Value}
    (h : Reading.front bytes = .complete v rest) :
    ∃ blanks text, bytes = blanks ++ (text ++ rest) ∧ Blank blanks ∧
      (∀ b ∈ text.head?, isBlank b = false) ∧ Reading.front text = .complete v [] := by
  have hscan := scan_of_front h
  have hblank : Blank (bytes.takeWhile isBlank) := fun b hb => List.mem_takeWhile_imp hb
  rw [← List.takeWhile_append_dropWhile (p := isBlank) (l := bytes), scan_blank_append hblank]
    at hscan
  obtain ⟨text, htext, halone⟩ := exists_text_of_scan hscan
  refine ⟨bytes.takeWhile isBlank, text, ?_, hblank, ?_, ?_⟩
  · rw [← htext, List.takeWhile_append_dropWhile]
  · intro b hb
    have hhead : (bytes.dropWhile isBlank).head? = some b := by
      rw [htext, List.head?_append, Option.mem_def.mp hb, Option.some_or]
    have hnot := List.head?_dropWhile_not isBlank bytes
    simpa [hhead] using hnot
  · rw [Reading.front, halone 0]
    simp

/-! ### Where there is no document -/

/-- Only a blank leaves the machine before the document. -/
theorem State.step_eq_initial {s : State} {b : UInt8} (h : s.step b = .more .initial) :
    s = .initial ∧ isBlank b = true := by
  have hdeliver : ∀ enclosing w, deliverTaken enclosing w ≠ .more .initial := by
    intro enclosing w heq
    rcases enclosing with _ | ⟨e, outer⟩
    · cases heq
    · rw [deliverTaken_cons] at heq
      cases e <;> cases heq
  have hbegin : ∀ enclosing, beginValue enclosing b ≠ .more .initial := by
    intro enclosing heq
    unfold beginValue at heq
    repeat' split at heq
    all_goals cases heq
  have hitem : ∀ enclosing items, afterItem enclosing items b ≠ .more .initial := by
    intro enclosing items heq
    unfold afterItem at heq
    repeat' split at heq
    all_goals first | cases heq | exact hdeliver _ _ heq
  have hmember : ∀ enclosing members, afterMember enclosing members b ≠ .more .initial := by
    intro enclosing members heq
    unfold afterMember at heq
    repeat' split at heq
    all_goals first | cases heq | exact hdeliver _ _ heq
  obtain ⟨enclosing, mode⟩ := s
  cases mode with
  | value =>
    simp only [step] at h
    split at h
    · next hblank =>
      cases h
      exact ⟨rfl, hblank⟩
    · exact absurd h (hbegin _)
  | afterItem items => exact absurd h (hitem _ _)
  | afterMember members => exact absurd h (hmember _ _)
  | number n =>
    simp only [step] at h
    repeat' split at h
    all_goals first | cases h | skip
    next value _ =>
      cases enclosing with
      | nil => cases h
      | cons e outer =>
        rw [afterNumber_cons] at h
        cases e with
        | list items => exact absurd h (hitem _ _)
        | object members key => exact absurd h (hmember _ _)
  | _ =>
    simp only [step] at h
    repeat' split at h
    all_goals first
      | cases h
      | exact absurd h (hdeliver _ _)
      | exact absurd h (hbegin _)
/-- Only blanks are read as nothing. -/
theorem blank_of_scan {s : State} {index : Nat} {bytes : List UInt8}
    (h : scan s index bytes = .blank) : s = .initial ∧ Blank bytes := by
  induction bytes generalizing s index with
  | nil =>
    obtain ⟨enclosing, mode⟩ := s
    cases mode with
    | value =>
      cases enclosing with
      | nil => exact ⟨rfl, blank_nil⟩
      | cons e outer => cases h
    | _ =>
      simp only [scan, State.finish] at h
      repeat' split at h
      all_goals cases h
  | cons b bytes ih =>
    rw [scan] at h
    cases hstep : s.step b with
    | more t =>
      rw [hstep] at h
      obtain ⟨rfl, hblank⟩ := ih h
      obtain ⟨rfl, hb⟩ := State.step_eq_initial hstep
      exact ⟨rfl, List.forall_mem_cons.mpr ⟨hb, hblank⟩⟩
    | done v taken =>
      rw [hstep] at h
      cases taken <;> cases h
    | broken fault taken =>
      rw [hstep] at h
      cases taken <;> cases h
/-- A buffer that holds no document at all is blank. -/
theorem blank_of_front {bytes : List UInt8} (h : Reading.front bytes = .blank) : Blank bytes := by
  rw [Reading.front] at h
  split at h
  · split at h <;> cases h
  · exact (blank_of_scan h).2

/-- How far reading has come does not matter to whether the text is incomplete. -/
theorem scan_incomplete {s : State} {index : Nat} {bytes : List UInt8} {what : Unfinished}
    (h : scan s index bytes = .incomplete what) (place : Nat) :
    scan s place bytes = .incomplete what := by
  induction bytes generalizing s index place with
  | nil =>
    simp only [scan, State.finish] at h ⊢
    repeat' split at h
    all_goals simp_all
  | cons b bytes ih =>
    rw [scan] at h ⊢
    cases hstep : s.step b with
    | more t =>
      rw [hstep] at h
      exact ih h place.succ
    | done v taken =>
      rw [hstep] at h
      cases taken <;> cases h
    | broken fault taken =>
      rw [hstep] at h
      cases taken <;> cases h

/-- Nothing but the end of the text makes it incomplete. -/
theorem scan_of_front_incomplete {bytes : List UInt8} {what : Unfinished}
    (h : Reading.front bytes = .incomplete what) : scan .initial 0 bytes = .incomplete what := by
  rw [Reading.front] at h
  split at h
  · split at h <;> cases h
  · exact h

/-- An incomplete document is one behind blanks too. -/
theorem front_incomplete_blank_append {blanks text : List UInt8} {what : Unfinished}
    (hblank : Blank blanks) (h : Reading.front text = .incomplete what) :
    Reading.front (blanks ++ text) = .incomplete what := by
  rw [Reading.front, scan_blank_append hblank, scan_incomplete (scan_of_front_incomplete h)]

/-- Blanks before it do not matter to whether a text is incomplete. -/
theorem exists_text_of_incomplete {bytes : List UInt8} {what : Unfinished}
    (h : Reading.front bytes = .incomplete what) :
    ∃ blanks text, bytes = blanks ++ text ∧ Blank blanks ∧ text ≠ [] ∧
      (∀ b ∈ text.head?, isBlank b = false) ∧ Reading.front text = .incomplete what := by
  have hscan := scan_of_front_incomplete h
  have hblank : Blank (bytes.takeWhile isBlank) := fun b hb => List.mem_takeWhile_imp hb
  rw [← List.takeWhile_append_dropWhile (p := isBlank) (l := bytes), scan_blank_append hblank]
    at hscan
  refine ⟨bytes.takeWhile isBlank, bytes.dropWhile isBlank, ?_, hblank, ?_, ?_, ?_⟩
  · rw [List.takeWhile_append_dropWhile]
  · intro hnil
    rw [hnil] at hscan
    cases hscan
  · intro b hb
    have hnot := List.head?_dropWhile_not isBlank bytes
    simpa [Option.mem_def.mp hb] using hnot
  · rw [Reading.front, scan_incomplete hscan 0]

/-! ### Broken text with something behind it -/

/-- A number that may end does end at a byte that sets it off. -/
theorem Numeral.ended_of_isWhole {n : Numeral} {b : UInt8} (h : n.isWhole = true)
    (hb : setsOff b = true) : n.step b = .ended := by
  obtain ⟨hdigit, hpoint, hmark⟩ : digit? b = none ∧ b ≠ 0x2e ∧ isExponentMark b = false := by
    simp only [setsOff, isBlank, Bool.or_eq_true, decide_eq_true_eq] at hb
    rcases hb with
      (((((((((rfl | rfl) | rfl) | rfl) | rfl) | rfl) | rfl) | rfl) | rfl) | rfl) | rfl <;>
      decide
  cases hstage : n.stage <;> simp [Numeral.isWhole, hstage] at h <;>
    simp [Numeral.step, hstage, hdigit, Numeral.afterWhole, Numeral.afterFraction, hpoint, hmark]

/-- A text that is broken at its end has a number there that is out of range. -/
theorem State.finish_of_broken {s : State} {index place : Nat} {fault : Fault}
    (h : s.finish index = .broken fault place) :
    ∃ n, s.mode = .number n ∧ n.isWhole = true ∧ n.value? = none ∧
      fault = .numberOutOfRange ∧ place = index := by
  obtain ⟨enclosing, mode⟩ := s
  cases mode with
  | number n =>
    cases hwhole : n.isWhole with
    | false => simp [finish, hwhole] at h
    | true =>
      cases hvalue : n.value? with
      | none =>
        simp only [finish, hwhole, hvalue] at h
        cases h
        exact ⟨n, rfl, hwhole, hvalue, rfl, rfl⟩
      | some value => rcases enclosing with _ | ⟨⟨⟩, outer⟩ <;> simp [finish, hwhole, hvalue] at h
  | _ =>
    simp only [finish] at h
    repeat' split at h
    all_goals cases h

/-- A broken text is broken at the same place when something follows that sets it off. -/
theorem scan_broken_append {s : State} {index place : Nat} {bytes : List UInt8} {fault : Fault}
    {b : UInt8} (h : scan s index bytes = .broken fault place) (hb : setsOff b = true)
    (more : List UInt8) :
    scan s index (bytes ++ b :: more) = .broken fault place ∧ place ≤ index + bytes.length := by
  induction bytes generalizing s index with
  | nil =>
    obtain ⟨n, hmode, hwhole, hvalue, rfl, rfl⟩ := State.finish_of_broken h
    have hstep : s.step b = .broken .numberOutOfRange false := by
      simp only [State.step, hmode, Numeral.ended_of_isWhole hwhole hb, hvalue]
    refine ⟨?_, Nat.le_add_right _ _⟩
    rw [List.nil_append, scan, hstep]
  | cons c bytes ih =>
    rw [List.cons_append, List.length_cons]
    rw [scan] at h ⊢
    cases hstep : s.step c with
    | more t =>
      rw [hstep] at h
      obtain ⟨hbroken, hplace⟩ := ih h
      exact ⟨hbroken, by omega⟩
    | done v taken =>
      rw [hstep] at h
      cases taken <;> cases h
    | broken found taken =>
      rw [hstep] at h
      cases taken <;> cases h
      · exact ⟨rfl, by omega⟩
      · exact ⟨rfl, by omega⟩

/-- A document with something behind it is the same document when more follows. -/
theorem scan_complete_append {s : State} {index : Nat} {bytes rest : List UInt8} {v : Value}
    (h : scan s index bytes = .complete v rest) (hrest : rest ≠ []) (more : List UInt8) :
    scan s index (bytes ++ more) = .complete v (rest ++ more) := by
  induction bytes generalizing s index with
  | nil => exact absurd (State.finish_of_complete h).1 hrest
  | cons b bytes ih =>
    rw [List.cons_append]
    rw [scan] at h ⊢
    cases hstep : s.step b with
    | more t =>
      rw [hstep] at h
      exact ih h
    | done w taken =>
      rw [hstep] at h
      cases taken <;> cases h <;> rfl
    | broken fault taken =>
      rw [hstep] at h
      cases taken <;> cases h

/-- The first byte of a document that was read is there already. -/
theorem firstByte?_append_of_complete {index : Nat} {bytes rest : List UInt8} {v : Value}
    (h : scan .initial index bytes = .complete v rest) (more : List UInt8) :
    firstByte? (bytes ++ more) = firstByte? bytes := by
  rw [firstByte?, List.find?_append, ← firstByte?]
  cases hfound : firstByte? bytes with
  | some first => rfl
  | none =>
    have hblank : Blank bytes := by
      intro b hb
      simpa using List.find?_eq_none.mp hfound b hb
    have hnothing := scan_blank_append hblank index []
    rw [List.append_nil, h] at hnothing
    cases hnothing

/-- What is broken at the front of a buffer stays so, at the same place, when something follows that
sets it off. -/
theorem front_broken_append {bytes : List UInt8} {fault : Fault} {index : Nat}
    {b : UInt8} (h : Reading.front bytes = .broken fault index) (hb : setsOff b = true)
    (more : List UInt8) :
    Reading.front (bytes ++ b :: more) = .broken fault index ∧ index ≤ bytes.length := by
  rw [Reading.front] at h
  split at h
  · next v rest hscan =>
    split at h
    · cases h
    · next hopen =>
      cases h
      -- a document that shows its end only at the byte behind it is not set off by that byte
      obtain ⟨hfirst, hhead⟩ : (firstByte? bytes).any isDelimited = false ∧
          rest.head?.all setsOff = false := by simpa using hopen
      cases rest with
      | nil => cases hhead
      | cons c rest =>
        have hlength := (scan_complete_suffix hscan).length_le
        simp only [List.length_cons] at hlength
        refine ⟨?_, by simp only [List.length_cons]; omega⟩
        have hwhole := scan_complete_append hscan (List.cons_ne_nil c rest) (b :: more)
        have hhead' : (c :: rest ++ b :: more).head?.all setsOff = false := hhead
        rw [Reading.front, hwhole, firstByte?_append_of_complete hscan]
        simp only [hfirst, hhead', Bool.or_self, Bool.false_eq_true, if_false,
          List.length_append, List.length_cons, Reading.broken.injEq, true_and]
        omega
  · obtain ⟨hbroken, hindex⟩ := scan_broken_append h hb more
    rw [Reading.front, hbroken]
    exact ⟨rfl, by omega⟩

end EnvelopeClient.Json
