import EnvelopeClient.Proofs.Frame.Progress

/-!
# What a drain leaves behind

A drain ends at a buffer in which decoding finds no frame (`exists_last`), so what it leaves is
nothing, or an incomplete document behind blanks, within the limit (`Waits`): the size needs to be
tested for such a document only, since nothing else is ever left. Every buffer a drain goes through
is a suffix of the one it began with. So a stream never holds more than the limit and the newest
chunk, however it is cut and whatever is in it (`feed_bounded`).

At the end of the stream the same frames come out, and what is left is reported in one frame more
(`drainAtEnd_eq`).
-/

namespace EnvelopeClient.Frame

open Json

/-- The buffers a drain goes through: the one it begins with, and what decoding leaves of each. -/
inductive GoesThrough (limit : Nat) (buffer : List UInt8) : List UInt8 → Prop where
  | start : GoesThrough limit buffer buffer
  | next {held rest : List UInt8} {found : Option Frame} (h : GoesThrough limit buffer held)
      (hdecode : decode limit held = (found, rest)) : GoesThrough limit buffer rest

/-- What may stay in a buffer: nothing, or an incomplete document behind blanks, within the limit. -/
inductive Waits (limit : Nat) : List UInt8 → Prop where
  | nothing : Waits limit []
  | document {blanks text : List UInt8} {what : Unfinished} (hblank : Blank blanks)
      (hne : text ≠ []) (hfirst : ∀ b ∈ text.head?, isBlank b = false)
      (htext : Reading.front text = .incomplete what) (hlimit : (blanks ++ text).length ≤ limit) :
      Waits limit (blanks ++ text)

variable {limit : Nat} {buffer held rest : List UInt8} {frame : Frame}

/-! ### The course of a drain -/

theorem GoesThrough.suffix (h : GoesThrough limit buffer held) : held <:+ buffer := by
  induction h with
  | start => exact List.suffix_rfl
  | @next held rest found _ hdecode ih =>
    cases found with
    | none => exact (kept_of_decode hdecode).suffix.trans ih
    | some frame => exact (decoded_of_decode hdecode).suffix.trans ih

/-- What a drain goes through behind its first frame. -/
theorem GoesThrough.of_rest (hdecode : decode limit buffer = (some frame, rest))
    (h : GoesThrough limit rest held) : GoesThrough limit buffer held := by
  induction h with
  | start => exact .next .start hdecode
  | next _ hnext ih => exact .next ih hnext

/-- A drain ends where decoding finds no frame. -/
theorem exists_last (limit : Nat) (buffer : List UInt8) :
    ∃ last, GoesThrough limit buffer last ∧
      decode limit last = (none, (drain limit buffer).2) := by
  induction h : buffer.length using Nat.strongRecOn generalizing buffer with
  | _ n ih =>
    rcases hdecode : decode limit buffer with ⟨_ | frame, rest⟩
    · rw [drain_of_none hdecode]
      exact ⟨buffer, .start, hdecode⟩
    · have hlt := h ▸ decode_length_lt hdecode
      obtain ⟨last, hthrough, hlast⟩ := ih rest.length hlt rest rfl
      rw [drain_of_some hdecode]
      exact ⟨last, hthrough.of_rest hdecode, hlast⟩

/-! ### What is left -/

theorem Kept.waits (h : Kept limit buffer rest) : Waits limit rest := by
  cases h with
  | incomplete hblank hne hfirst htext hlimit => exact .document hblank hne hfirst htext hlimit
  | blank => exact .nothing

theorem waits_drain (limit : Nat) (buffer : List UInt8) : Waits limit (drain limit buffer).2 := by
  obtain ⟨last, -, hlast⟩ := exists_last limit buffer
  exact (kept_of_decode hlast).waits

/-- Behind any number of chunks. -/
theorem waits_feed (limit : Nat) (chunks : List (List UInt8)) :
    Waits limit (feed limit [] chunks).2 := by
  rcases List.eq_nil_or_concat chunks with rfl | ⟨before, chunk, rfl⟩
  · exact .nothing
  · rw [List.concat_eq_append, feed_concat]
    exact waits_drain limit _

namespace Waits

theorem length_le (h : Waits limit held) : held.length ≤ limit := by
  cases h with
  | nothing => exact Nat.zero_le limit
  | document hblank hne hfirst htext hlimit => exact hlimit

/-- The whole of it, blanks and all, reads as an incomplete document. -/
theorem front (h : Waits limit held) (hne : held ≠ []) :
    ∃ what, Reading.front held = .incomplete what := by
  cases h with
  | nothing => exact absurd rfl hne
  | document hblank hne hfirst htext => exact ⟨_, front_incomplete_blank_append hblank htext⟩

/-- More has to come before it yields anything. -/
theorem decode_eq (h : Waits limit held) : decode limit held = (none, held) := by
  by_cases hnil : held = []
  · subst hnil
    rfl
  · obtain ⟨what, hfront⟩ := h.front hnil
    rw [decode, hfront]
    exact if_neg (Nat.not_lt_of_le h.length_le)

end Waits

/-- **A stream is held within bounds.** Whatever chunks have come, what is kept of them is no longer
than the limit, and it is nothing, or blanks and then an incomplete document, which nothing is found
in before more comes. No buffer that the next chunk is drained through is longer than the limit and
that chunk. -/
theorem feed_bounded (limit : Nat) (chunks : List (List UInt8)) :
    (feed limit [] chunks).2.length ≤ limit ∧
    (∀ chunk held, GoesThrough limit ((feed limit [] chunks).2 ++ chunk) held →
      held.length ≤ limit + chunk.length) ∧
    ((feed limit [] chunks).2 = [] ∨
      ∃ blanks text what, (feed limit [] chunks).2 = blanks ++ text ∧ Blank blanks ∧ text ≠ [] ∧
        (∀ b ∈ text.head?, isBlank b = false) ∧ Reading.front text = .incomplete what) ∧
    decode limit (feed limit [] chunks).2 = (none, (feed limit [] chunks).2) := by
  have hwaits := waits_feed limit chunks
  have hlength := hwaits.length_le
  refine ⟨hlength, ?_, ?_, hwaits.decode_eq⟩
  · intro chunk held hthrough
    have hheld := hthrough.suffix.length_le
    rw [List.length_append] at hheld
    omega
  · generalize (feed limit [] chunks).2 = kept at hwaits
    cases hwaits with
    | nothing => exact .inl rfl
    | document hblank hne hfirst htext => exact .inr ⟨_, _, _, rfl, hblank, hne, hfirst, htext⟩

/-! ### At the end of the stream -/

/-- The first letter of a report. -/
def letter? : Frame → Option Char
  | .envelope _ => none
  | .malformed reason => reason.toList.head?

theorem letter?_ofDocument (v : Value) : (ofDocument v).letter? ≠ some 't' := by
  rw [ofDocument]
  cases hread : Envelope.ofValue v with
  | ok e => simp [letter?]
  | error failure =>
    rw [Envelope.ofValue] at hread
    split at hread
    · cases hread
    · cases hread
      simp [letter?, Failure.message, Failure.label]

/-- Only the end of the stream reports a truncated message. -/
theorem ne_truncated (h : decode limit buffer = (some frame, rest)) (n : Nat) :
    frame ≠ truncated n := by
  have hletter : frame.letter? ≠ some 't' := by
    cases hfront : Reading.front buffer with
    | blank =>
      rw [decode, hfront] at h
      cases h
    | complete v left =>
      rw [decode_of_complete hfront] at h
      cases h
      exact letter?_ofDocument v
    | incomplete what =>
      rw [decode, hfront] at h
      dsimp only at h
      split at h
      · cases h
        simp [letter?, toString]
      · cases h
    | broken fault index =>
      rw [decode_of_broken hfront] at h
      cases h
      simp [letter?, brokenFrame, toString]
  rintro rfl
  exact hletter (by simp [letter?, truncated, toString])

theorem truncated_not_mem_drain (limit : Nat) (buffer : List UInt8) (n : Nat) :
    truncated n ∉ (drain limit buffer).1 := by
  induction h : buffer.length using Nat.strongRecOn generalizing buffer with
  | _ k ih =>
    rcases hdecode : decode limit buffer with ⟨_ | frame, rest⟩
    · rw [drain_of_none hdecode]
      exact List.not_mem_nil
    · have hlt := h ▸ decode_length_lt hdecode
      rw [drain_of_some hdecode, List.mem_cons]
      rintro (heq | hmem)
      · exact ne_truncated hdecode n heq.symm
      · exact ih rest.length hlt rest rfl hmem

/-- What the end of the stream makes of what is left: a report with its length, or nothing. -/
def lastReport : List UInt8 → List Frame
  | [] => []
  | left => [truncated left.length]

theorem drainAtEnd_fst (limit : Nat) (buffer : List UInt8) :
    (drainAtEnd limit buffer).1 = (drain limit buffer).1 ++ lastReport (drain limit buffer).2 := by
  induction h : buffer.length using Nat.strongRecOn generalizing buffer with
  | _ n ih =>
    rcases decodeAtEnd_cases limit buffer with ⟨hend, hdecode⟩ | ⟨left, hdecode, hne, hend⟩ |
      ⟨frame, rest, hdecode, hend⟩
    · rw [drainAtEnd_of_none hend, drain_of_none hdecode]
      rfl
    · rw [drainAtEnd_of_some hend, drain_of_none hdecode, drainAtEnd_nil]
      cases left with
      | nil => exact absurd rfl hne
      | cons b left => rfl
    · have hlt := h ▸ decode_length_lt hdecode
      rw [drainAtEnd_of_some hend, drain_of_some hdecode, ih rest.length hlt rest rfl]
      rfl

theorem messages_append (frames more : List Frame) :
    messages (frames ++ more) = messages frames ++ messages more :=
  List.filterMap_append

theorem messages_lastReport (left : List UInt8) : messages (lastReport left) = [] := by
  cases left <;> rfl

/-- **The end of a stream adds one report at most.** Draining a buffer there yields the frames that
draining it yields anywhere, and behind them, if and only if something would be left, the one report
of a truncated message, with the number of those bytes; no such report is among the frames before
it. So the messages are the same ones, and nothing is left. -/
theorem drainAtEnd_eq (limit : Nat) (buffer : List UInt8) :
    drainAtEnd limit buffer =
      ((drain limit buffer).1 ++
        (if (drain limit buffer).2 = [] then [] else [truncated (drain limit buffer).2.length]),
        []) ∧
    (∀ n, truncated n ∉ (drain limit buffer).1) ∧
    messages (drainAtEnd limit buffer).1 = messages (drain limit buffer).1 := by
  refine ⟨?_, truncated_not_mem_drain limit buffer, ?_⟩
  · refine Prod.ext ?_ (drainAtEnd_snd limit buffer)
    rw [drainAtEnd_fst]
    cases (drain limit buffer).2 <;> rfl
  · rw [drainAtEnd_fst, messages_append, messages_lastReport, List.append_nil]

end EnvelopeClient.Frame
