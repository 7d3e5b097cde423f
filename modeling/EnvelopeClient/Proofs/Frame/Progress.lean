import EnvelopeClient.Proofs.Frame.Documents
import EnvelopeClient.Proofs.Frame.Grammar
import EnvelopeClient.Proofs.Frame.Truncation
import Mathlib.Data.List.Chain
import Mathlib.Data.List.Forall2
import Mathlib.Logic.Function.Iterate

/-!
# What decoding takes off a buffer

Every byte that leaves a buffer is accounted for (`Frame.Covers`): it belongs to the one text of the
message that came out or to the blanks before it, or it left with a report. `Decoded` says so of one
frame, `Drained` of all the frames a drain finds. A frame takes at least one byte, so a drain finds
at most as many frames as the buffer has bytes. Behind a report of broken text decoding stands where
the text is not broken, so two such reports never follow each other.
-/

namespace EnvelopeClient.Frame

open Json

/-- A frame reports that text is broken. -/
def IsSyntaxError (frame : Frame) : Prop :=
  ∃ message : String, frame = .malformed ("malformed json: " ++ message)

/-- The bytes a frame may take off a buffer: blanks and one text of the message that is yielded, or
any bytes that are reported. -/
inductive Covers : Frame → List UInt8 → Prop where
  | message {e : Envelope} {blanks text : List UInt8} {v : Value} (hblank : Blank blanks)
      (hfirst : ∀ b ∈ text.head?, isBlank b = false)
      (htext : Reading.front text = .complete v []) (hdenoted : Envelope.Denoted v e) :
      Covers (.envelope e) (blanks ++ text)
  | report {bytes : List UInt8} (hne : bytes ≠ []) (reason : String) :
      Covers (.malformed reason) bytes

/-- What taking a frame off a buffer comes to. -/
structure Decoded (buffer : List UInt8) (frame : Frame) (rest : List UInt8) : Prop where
  /-- Exactly the bytes the frame covers are gone. -/
  covered : ∃ bytes, buffer = bytes ++ rest ∧ frame.Covers bytes
  /-- Broken text is reported where it is, and decoding stands where the text is not broken. -/
  reported : frame.IsSyntaxError → brokenAtFront buffer = true ∧ brokenAtFront rest = false

/-- Without a frame a buffer is kept as it is, an incomplete document behind blanks within the
limit, or it was blank and is now empty. -/
inductive Kept (limit : Nat) : List UInt8 → List UInt8 → Prop where
  | incomplete {blanks text : List UInt8} {what : Unfinished} (hblank : Blank blanks)
      (hne : text ≠ []) (hfirst : ∀ b ∈ text.head?, isBlank b = false)
      (htext : Reading.front text = .incomplete what) (hlimit : (blanks ++ text).length ≤ limit) :
      Kept limit (blanks ++ text) (blanks ++ text)
  | blank {blanks : List UInt8} (hblank : Blank blanks) : Kept limit blanks []

/-- What draining a buffer comes to: every frame covers its part of the buffer, one after the other,
and only blanks are missing between the last part and what is left. -/
structure Drained (buffer : List UInt8) (frames : List Frame) (rest : List UInt8) : Prop where
  covered : ∃ parts blanks, buffer = parts.flatten ++ (blanks ++ rest) ∧
    List.Forall₂ Covers frames parts ∧ Blank blanks
  /-- Two reports of broken text do not follow each other. -/
  apart : frames.IsChain fun frame next => ¬(frame.IsSyntaxError ∧ next.IsSyntaxError)
  first : ∀ frame ∈ frames.head?, frame.IsSyntaxError → brokenAtFront buffer = true

variable {limit : Nat} {buffer rest bytes : List UInt8} {frame : Frame} {frames : List Frame}

/-! ### One frame -/

/-- No frame comes out for nothing. -/
theorem Covers.ne_nil (h : Covers frame bytes) : bytes ≠ [] := by
  cases h with
  | message hblank hfirst htext hdenoted =>
    intro hnil
    obtain ⟨-, rfl⟩ := List.append_eq_nil_iff.mp hnil
    cases htext
  | report hne reason => exact hne

theorem Decoded.length_lt (h : Decoded buffer frame rest) : rest.length < buffer.length := by
  obtain ⟨bytes, rfl, hcovers⟩ := h.covered
  have hpos := List.length_pos_iff.mpr hcovers.ne_nil
  rw [List.length_append]
  omega

theorem Decoded.suffix (h : Decoded buffer frame rest) : rest <:+ buffer := by
  obtain ⟨bytes, rfl, -⟩ := h.covered
  exact List.suffix_append bytes rest

theorem Kept.suffix (h : Kept limit buffer rest) : rest <:+ buffer := by
  cases h with
  | incomplete => exact List.suffix_rfl
  | blank => exact List.nil_suffix

/-- A report is told by its first word. -/
theorem not_isSyntaxError {reason : String} (h : reason.toList.head? ≠ some 'm') :
    ¬(malformed reason).IsSyntaxError := by
  rintro ⟨message, heq⟩
  cases heq
  simp at h

theorem ofDocument_not_syntaxError (v : Value) : ¬(ofDocument v).IsSyntaxError := by
  rw [ofDocument]
  cases hread : Envelope.ofValue v with
  | ok e =>
    rintro ⟨message, heq⟩
    cases heq
  | error failure =>
    rw [Envelope.ofValue] at hread
    split at hread
    · cases hread
    · cases hread
      exact not_isSyntaxError (by simp [Failure.message, Failure.label])

theorem skipBroken_suffix (bytes : List UInt8) : skipBroken bytes <:+ bytes :=
  (fromBrace_suffix _).trans ((List.drop_suffix 1 _).trans (List.dropWhile_suffix _))

theorem resynchronize_suffix (bytes : List UInt8) : resynchronize bytes <:+ bytes := by
  fun_induction resynchronize bytes with
  | case1 => exact List.suffix_rfl
  | case2 bytes _ hne ih => exact ih.trans (skipBroken_suffix bytes)
  | case3 => exact List.suffix_rfl

/-- Skipping ends: it goes on from one broken text to the next, and stops where the text is not
broken. -/
theorem exists_skips (bytes : List UInt8) :
    ∃ n ≤ bytes.length, resynchronize bytes = skipBroken^[n] bytes ∧
      brokenAtFront (skipBroken^[n] bytes) = false ∧
      ∀ k < n, brokenAtFront (skipBroken^[k] bytes) = true := by
  fun_induction resynchronize bytes with
  | case1 hbroken => cases hbroken
  | case2 bytes hbroken hne ih =>
    obtain ⟨n, hn, heq, hsound, hskipped⟩ := ih
    have hlt := skipBroken_length_lt hne
    refine ⟨n + 1, by omega, heq, hsound, ?_⟩
    intro k hk
    cases k with
    | zero => exact hbroken
    | succ k => exact hskipped k (by omega)
  | case3 bytes hsound => exact ⟨0, Nat.zero_le _, rfl, by simpa using hsound, by simp⟩

theorem brokenAtFront_resynchronize (bytes : List UInt8) :
    brokenAtFront (resynchronize bytes) = false := by
  obtain ⟨n, -, heq, hsound, -⟩ := exists_skips bytes
  rw [heq]
  exact hsound

/-- The frame of a document covers the document and the blanks before it. -/
theorem covers_ofDocument {v : Value} {blanks text : List UInt8} (hblank : Blank blanks)
    (hfirst : ∀ b ∈ text.head?, isBlank b = false) (htext : Reading.front text = .complete v []) :
    Covers (ofDocument v) (blanks ++ text) := by
  rw [ofDocument]
  cases hread : Envelope.ofValue v with
  | ok e => exact .message hblank hfirst htext (((Envelope.ofValue_denoted v).1 e).mp hread)
  | error failure =>
    refine .report ?_ _
    intro hnil
    obtain ⟨-, rfl⟩ := List.append_eq_nil_iff.mp hnil
    cases htext

theorem decoded_of_decode (h : decode limit buffer = (some frame, rest)) :
    Decoded buffer frame rest := by
  have hlt := decode_length_lt h
  cases hfront : Reading.front buffer with
  | blank =>
    rw [decode, hfront] at h
    cases h
  | complete v left =>
    rw [decode_of_complete hfront] at h
    cases h
    obtain ⟨blanks, text, rfl, hblank, hfirst, htext⟩ := exists_text_of_front hfront
    refine ⟨⟨blanks ++ text, (List.append_assoc _ _ _).symm, ?_⟩, ?_⟩
    · exact covers_ofDocument hblank hfirst htext
    · exact fun herror => absurd herror (ofDocument_not_syntaxError v)
  | incomplete what =>
    rw [decode, hfront] at h
    dsimp only at h
    split at h
    · cases h
      refine ⟨⟨buffer, (List.append_nil buffer).symm, .report ?_ _⟩, ?_⟩
      · exact List.ne_nil_of_length_pos hlt
      · exact fun herror => absurd herror (not_isSyntaxError (by simp [toString]))
    · cases h
  | broken fault index =>
    rw [decode_of_broken hfront] at h
    cases h
    obtain ⟨bytes, hbytes⟩ := (resynchronize_suffix _).trans (skipBroken_suffix buffer)
    refine ⟨⟨bytes, hbytes.symm, .report ?_ _⟩, ?_⟩
    · rintro rfl
      rw [List.nil_append] at hbytes
      rw [hbytes] at hlt
      exact Nat.lt_irrefl _ hlt
    · exact fun _ => ⟨brokenAtFront_of_broken hfront, brokenAtFront_resynchronize _⟩

theorem kept_of_decode (h : decode limit buffer = (none, rest)) : Kept limit buffer rest := by
  cases hfront : Reading.front buffer with
  | blank =>
    rw [decode, hfront] at h
    cases h
    exact .blank (blank_of_front hfront)
  | complete v left =>
    rw [decode_of_complete hfront] at h
    cases h
  | incomplete what =>
    rw [decode, hfront] at h
    dsimp only at h
    split at h
    · cases h
    · next hlimit =>
      cases h
      obtain ⟨blanks, text, rfl, hblank, hne, hfirst, htext⟩ := exists_text_of_incomplete hfront
      exact .incomplete hblank hne hfirst htext (Nat.le_of_not_lt hlimit)
  | broken fault index =>
    rw [decode_of_broken hfront] at h
    cases h

/-- Where nothing is left without a frame, there was nothing but blanks. -/
theorem Kept.blank_of_nil (h : Kept limit buffer []) : Blank buffer := by
  generalize hrest : ([] : List UInt8) = rest at h
  cases h with
  | incomplete hblank hne => exact absurd (List.append_eq_nil_iff.mp hrest.symm).2 hne
  | blank hblank => exact hblank

/-- At the end of the stream an incomplete document is reported with all that is left. -/
theorem decodeAtEnd_cases (limit : Nat) (buffer : List UInt8) :
    (decodeAtEnd limit buffer = (none, []) ∧ decode limit buffer = (none, [])) ∨
    (∃ rest, decode limit buffer = (none, rest) ∧ rest ≠ [] ∧
      decodeAtEnd limit buffer = (some (truncated rest.length), [])) ∨
    ∃ frame rest, decode limit buffer = (some frame, rest) ∧
      decodeAtEnd limit buffer = (some frame, rest) := by
  rcases hdecode : decode limit buffer with ⟨_ | frame, rest⟩
  · cases rest with
    | nil => exact .inl ⟨by rw [decodeAtEnd, hdecode], rfl⟩
    | cons b rest =>
      exact .inr (.inl ⟨b :: rest, rfl, List.cons_ne_nil b rest, by rw [decodeAtEnd, hdecode]; rfl⟩)
  · exact .inr (.inr ⟨frame, rest, rfl, decodeAtEnd_of_some hdecode⟩)

theorem decoded_of_decodeAtEnd (h : decodeAtEnd limit buffer = (some frame, rest)) :
    Decoded buffer frame rest := by
  rcases decodeAtEnd_cases limit buffer with ⟨hend, -⟩ | ⟨kept, hkept, hne, hend⟩ |
    ⟨found, left, hdecode, hend⟩
  · rw [hend] at h
    cases h
  · rw [hend] at h
    cases h
    have hlt := decodeAtEnd_length_lt hend
    refine ⟨⟨buffer, (List.append_nil buffer).symm, .report ?_ _⟩, ?_⟩
    · exact List.ne_nil_of_length_pos hlt
    · exact fun herror => absurd herror (not_isSyntaxError (by simp [toString]))
  · rw [hend] at h
    cases h
    exact decoded_of_decode hdecode

theorem blank_of_decodeAtEnd (h : decodeAtEnd limit buffer = (none, rest)) :
    rest = [] ∧ Blank buffer := by
  rcases decodeAtEnd_cases limit buffer with ⟨hend, hnone⟩ | ⟨kept, -, -, hend⟩ |
    ⟨found, left, -, hend⟩
  · rw [hend] at h
    cases h
    exact ⟨rfl, (kept_of_decode hnone).blank_of_nil⟩
  · rw [hend] at h
    cases h
  · rw [hend] at h
    cases h

/-! ### A whole drain -/

theorem Kept.drained (h : Kept limit buffer rest) : Drained buffer [] rest := by
  refine ⟨?_, .nil, fun frame hframe => by cases hframe⟩
  cases h with
  | incomplete => exact ⟨[], [], rfl, .nil, blank_nil⟩
  | blank hblank => exact ⟨[], buffer, (List.append_nil buffer).symm, .nil, hblank⟩

/-- One frame, and then the others from what it leaves. -/
theorem Decoded.drained {left : List UInt8} (h : Decoded buffer frame left)
    (hmore : Drained left frames rest) : Drained buffer (frame :: frames) rest := by
  obtain ⟨bytes, rfl, hcovers⟩ := h.covered
  obtain ⟨parts, blanks, hleft, hparts, hblank⟩ := hmore.covered
  refine ⟨⟨bytes :: parts, blanks, ?_, .cons hcovers hparts, hblank⟩, ?_, ?_⟩
  · rw [List.flatten_cons, List.append_assoc, ← hleft]
  · refine List.isChain_cons.mpr ⟨?_, hmore.apart⟩
    rintro next hnext ⟨herror, hagain⟩
    have hbroken := hmore.first next hnext hagain
    rw [(h.reported herror).2] at hbroken
    cases hbroken
  · intro first hfirst herror
    cases hfirst
    exact (h.reported herror).1

theorem drained_drain (limit : Nat) (buffer : List UInt8) :
    Drained buffer (drain limit buffer).1 (drain limit buffer).2 := by
  induction h : buffer.length using Nat.strongRecOn generalizing buffer with
  | _ n ih =>
    rcases hdecode : decode limit buffer with ⟨_ | frame, rest⟩
    · rw [drain_of_none hdecode]
      exact (kept_of_decode hdecode).drained
    · have hdecoded := decoded_of_decode hdecode
      rw [drain_of_some hdecode]
      exact hdecoded.drained (ih rest.length (h ▸ hdecoded.length_lt) rest rfl)

theorem drained_drainAtEnd (limit : Nat) (buffer : List UInt8) :
    Drained buffer (drainAtEnd limit buffer).1 (drainAtEnd limit buffer).2 := by
  induction h : buffer.length using Nat.strongRecOn generalizing buffer with
  | _ n ih =>
    rcases hdecode : decodeAtEnd limit buffer with ⟨_ | frame, rest⟩
    · obtain ⟨rfl, hblank⟩ := blank_of_decodeAtEnd hdecode
      have hkept : Kept limit buffer [] := .blank hblank
      rw [drainAtEnd_of_none hdecode]
      exact hkept.drained
    · have hdecoded := decoded_of_decodeAtEnd hdecode
      rw [drainAtEnd_of_some hdecode]
      exact hdecoded.drained (ih rest.length (h ▸ hdecoded.length_lt) rest rfl)

/-- Every frame costs a byte. -/
theorem Drained.length_le (h : Drained buffer frames rest) :
    frames.length + rest.length ≤ buffer.length := by
  obtain ⟨parts, blanks, rfl, hcovers, -⟩ := h.covered
  have hparts : frames.length ≤ parts.flatten.length := by
    clear h
    induction hcovers with
    | nil => exact Nat.le_refl 0
    | cons hfirst _ ih =>
      have hpos := List.length_pos_iff.mpr hfirst.ne_nil
      simp only [List.length_cons, List.flatten_cons, List.length_append]
      omega
  simp only [List.length_append]
  omega

/-! ### Nothing is lost silently -/

/-- **Decoding makes progress and loses nothing silently.** Whatever is in a buffer, a frame leaves a
shorter suffix of it. Gone are exactly blanks and one text of the message that is yielded, or bytes
that are reported; behind a report of broken text comes none at once. Without a frame an incomplete
document stays as it is, and only blanks are dropped. Skipping broken text ends after at most as many
skips as there are bytes, and so does draining, at whose end everything is accounted for. -/
theorem decoding_accounted (limit : Nat) (buffer : List UInt8) :
    (∀ frame rest,
      (decode limit buffer = (some frame, rest) ∨ decodeAtEnd limit buffer = (some frame, rest)) →
      rest <:+ buffer ∧ rest.length < buffer.length ∧
      (∃ bytes, buffer = bytes ++ rest ∧ frame.Covers bytes) ∧
      (frame.IsSyntaxError → ∀ next left,
        (decode limit rest = (some next, left) ∨ decodeAtEnd limit rest = (some next, left)) →
        ¬next.IsSyntaxError)) ∧
    (∀ rest, decode limit buffer = (none, rest) → rest <:+ buffer ∧ Kept limit buffer rest) ∧
    (∀ rest, decodeAtEnd limit buffer = (none, rest) → rest = [] ∧ Blank buffer) ∧
    (∃ n ≤ buffer.length, resynchronize buffer = skipBroken^[n] buffer ∧
      brokenAtFront (skipBroken^[n] buffer) = false ∧
      ∀ k < n, brokenAtFront (skipBroken^[k] buffer) = true) ∧
    (Drained buffer (drain limit buffer).1 (drain limit buffer).2 ∧
      (drain limit buffer).1.length ≤ buffer.length) ∧
    (Drained buffer (drainAtEnd limit buffer).1 (drainAtEnd limit buffer).2 ∧
      (drainAtEnd limit buffer).1.length ≤ buffer.length) := by
  have hdecoded : ∀ {buffer frame rest},
      (decode limit buffer = (some frame, rest) ∨ decodeAtEnd limit buffer = (some frame, rest)) →
      Decoded buffer frame rest :=
    fun h => h.elim decoded_of_decode decoded_of_decodeAtEnd
  have hdrain := drained_drain limit buffer
  have hdrainAtEnd := drained_drainAtEnd limit buffer
  have hcount := hdrain.length_le
  have hcountAtEnd := hdrainAtEnd.length_le
  refine ⟨?_, fun rest h => ⟨(kept_of_decode h).suffix, kept_of_decode h⟩,
    fun rest => blank_of_decodeAtEnd, exists_skips buffer, ⟨hdrain, by omega⟩,
    ⟨hdrainAtEnd, by omega⟩⟩
  intro frame rest h
  have hfirst := hdecoded h
  refine ⟨hfirst.suffix, hfirst.length_lt, hfirst.covered, ?_⟩
  intro herror next left hnext hagain
  have hbroken := ((hdecoded hnext).reported hagain).1
  rw [(hfirst.reported herror).2] at hbroken
  cases hbroken

end EnvelopeClient.Frame
