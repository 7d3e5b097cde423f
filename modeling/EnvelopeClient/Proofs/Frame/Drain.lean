import EnvelopeClient.Frame.Decoder

/-!
# Draining, one frame after the other

`Frame.drain` collects its frames in an accumulator; `drain_of_some` and `drain_of_none` are its
plain recursion. `Frame.feed` is the life of a decoder on a stream: the chunks of the stream come
one by one, and the buffer is drained behind each.
-/

namespace EnvelopeClient.Frame

/-- The frames found before do not matter to those still to be found. -/
theorem drainFrom_eq (found : List Frame) (limit : Nat) (buffer : List UInt8) :
    drainFrom found limit buffer =
      (found.reverse ++ (drain limit buffer).1, (drain limit buffer).2) := by
  -- a frame takes at least one byte, so the buffer behind it is shorter
  induction h : buffer.length using Nat.strongRecOn generalizing found buffer with
  | _ n ih =>
    unfold drain drainFrom
    split
    · simp
    · next frame rest hdecode =>
      have hlt := h ▸ decode_length_lt hdecode
      rw [ih rest.length hlt (frame :: found) rest rfl, ih rest.length hlt [frame] rest rfl]
      simp

theorem drain_of_none {limit : Nat} {buffer rest : List UInt8}
    (h : decode limit buffer = (none, rest)) : drain limit buffer = ([], rest) := by
  unfold drain drainFrom
  split
  · next heq =>
    rw [h] at heq
    cases heq
    rfl
  · next heq =>
    rw [h] at heq
    cases heq

theorem drain_of_some {limit : Nat} {buffer rest : List UInt8} {frame : Frame}
    (h : decode limit buffer = (some frame, rest)) :
    drain limit buffer = (frame :: (drain limit rest).1, (drain limit rest).2) := by
  unfold drain
  rw [drainFrom]
  split
  · next heq =>
    rw [h] at heq
    cases heq
  · next heq =>
    rw [h] at heq
    cases heq
    rw [drainFrom_eq]
    rfl

/-- Without a frame a buffer is kept as it is, or holds nothing to keep. -/
theorem rest_of_decode_none {limit : Nat} {buffer rest : List UInt8}
    (h : decode limit buffer = (none, rest)) : rest = [] ∨ rest = buffer := by
  rw [decode] at h
  split at h
  · cases h
    exact .inl rfl
  · cases h
  · split at h
    · cases h
    · cases h
      exact .inr rfl
  · cases h

/-- Nothing comes into a buffer by draining it. -/
theorem length_drain_le (limit : Nat) (buffer : List UInt8) :
    (drain limit buffer).2.length ≤ buffer.length := by
  induction h : buffer.length using Nat.strongRecOn generalizing buffer with
  | _ n ih =>
    rcases hdecode : decode limit buffer with ⟨_ | frame, rest⟩
    · rw [drain_of_none hdecode]
      rcases rest_of_decode_none hdecode with rfl | rfl
      · exact Nat.zero_le n
      · exact Nat.le_of_eq h
    · have hlt := h ▸ decode_length_lt hdecode
      rw [drain_of_some hdecode]
      exact Nat.le_trans (ih rest.length hlt rest rfl) (Nat.le_of_lt hlt)

/-- The limit matters only to a document that is kept. -/
theorem decode_eq_of_short {limit wide : Nat} {buffer : List UInt8} (hwide : buffer.length ≤ wide)
    (h : decode wide buffer = (none, buffer) → buffer.length ≤ limit) :
    decode limit buffer = decode wide buffer := by
  cases hfront : Json.Reading.front buffer with
  | incomplete what =>
    have hkept : decode wide buffer = (none, buffer) := by
      rw [decode, hfront]
      exact if_neg (Nat.not_lt_of_le hwide)
    rw [hkept, decode, hfront]
    exact if_neg (Nat.not_lt_of_le (h hkept))
  | _ => rw [decode, decode, hfront]

/-- A limit does not matter where it allows what is kept without it. -/
theorem drain_eq_of_short {limit wide : Nat} {buffer : List UInt8} (hwide : buffer.length ≤ wide)
    (hkept : (drain wide buffer).2.length ≤ limit) : drain limit buffer = drain wide buffer := by
  induction h : buffer.length using Nat.strongRecOn generalizing buffer with
  | _ n ih =>
    rcases hdecode : decode wide buffer with ⟨_ | frame, rest⟩
    · rw [drain_of_none hdecode] at hkept ⊢
      refine drain_of_none ((decode_eq_of_short hwide ?_).trans hdecode)
      intro hwhole
      rw [hdecode] at hwhole
      cases hwhole
      exact hkept
    · have hlt := h ▸ decode_length_lt hdecode
      have hsame : decode limit buffer = (some frame, rest) := by
        refine (decode_eq_of_short hwide ?_).trans hdecode
        intro hwhole
        rw [hdecode] at hwhole
        cases hwhole
      rw [drain_of_some hdecode] at hkept ⊢
      rw [drain_of_some hsame, ih rest.length hlt (by omega) hkept rfl]

/-! ### Draining at the end of the stream -/

theorem drainAtEndFrom_eq (found : List Frame) (limit : Nat) (buffer : List UInt8) :
    drainAtEndFrom found limit buffer =
      (found.reverse ++ (drainAtEnd limit buffer).1, (drainAtEnd limit buffer).2) := by
  -- a frame takes at least one byte, so the buffer behind it is shorter
  induction h : buffer.length using Nat.strongRecOn generalizing found buffer with
  | _ n ih =>
    unfold drainAtEnd drainAtEndFrom
    split
    · simp
    · next frame rest hdecode =>
      have hlt := h ▸ decodeAtEnd_length_lt hdecode
      rw [ih rest.length hlt (frame :: found) rest rfl, ih rest.length hlt [frame] rest rfl]
      simp

theorem drainAtEnd_of_none {limit : Nat} {buffer rest : List UInt8}
    (h : decodeAtEnd limit buffer = (none, rest)) : drainAtEnd limit buffer = ([], rest) := by
  unfold drainAtEnd drainAtEndFrom
  split
  · next heq =>
    rw [h] at heq
    cases heq
    rfl
  · next heq =>
    rw [h] at heq
    cases heq

theorem drainAtEnd_of_some {limit : Nat} {buffer rest : List UInt8} {frame : Frame}
    (h : decodeAtEnd limit buffer = (some frame, rest)) :
    drainAtEnd limit buffer = (frame :: (drainAtEnd limit rest).1, (drainAtEnd limit rest).2) := by
  unfold drainAtEnd
  rw [drainAtEndFrom]
  split
  · next heq =>
    rw [h] at heq
    cases heq
  · next heq =>
    rw [h] at heq
    cases heq
    rw [drainAtEndFrom_eq]
    rfl

/-- At the end of the stream nothing is kept. -/
theorem drainAtEnd_snd (limit : Nat) (buffer : List UInt8) : (drainAtEnd limit buffer).2 = [] := by
  induction h : buffer.length using Nat.strongRecOn generalizing buffer with
  | _ n ih =>
    rcases hdecode : decodeAtEnd limit buffer with ⟨_ | frame, rest⟩
    · rw [drainAtEnd_of_none hdecode]
      rw [decodeAtEnd] at hdecode
      split at hdecode
      · cases hdecode
        rfl
      · cases hdecode
      · next hsome => exact absurd hdecode (by simpa using hsome _)
    · rw [drainAtEnd_of_some hdecode]
      exact ih rest.length (h ▸ decodeAtEnd_length_lt hdecode) rest rfl

theorem drainAtEnd_nil (limit : Nat) : drainAtEnd limit [] = ([], []) :=
  drainAtEnd_of_none rfl

theorem decodeAtEnd_of_some {limit : Nat} {buffer rest : List UInt8} {frame : Frame}
    (h : decode limit buffer = (some frame, rest)) :
    decodeAtEnd limit buffer = (some frame, rest) := by
  rw [decodeAtEnd, h]

/-! ### What is at the front of a buffer -/

open Json

theorem front_of_broken {bytes : List UInt8} {fault : Fault} {index : Nat}
    (h : scan .initial 0 bytes = .broken fault index) :
    Reading.front bytes = .broken fault index := by
  rw [Reading.front, h]

/-- A document that has a brace around it needs nothing behind it to be whole. -/
theorem front_of_brace {bytes rest : List UInt8} {v : Value}
    (hfirst : firstByte? bytes = some 0x7b) (h : scan .initial 0 bytes = .complete v rest) :
    Reading.front bytes = .complete v rest := by
  rw [Reading.front, h, hfirst]
  rfl

theorem decode_of_complete {buffer rest : List UInt8} {v : Value}
    (h : Reading.front buffer = .complete v rest) (limit : Nat) :
    decode limit buffer = (some (ofDocument v), rest) := by
  rw [decode, h]

/-- The frame of a broken document. -/
def brokenFrame (buffer : List UInt8) (fault : Fault) (index : Nat) : Frame :=
  .malformed s!"malformed json: {(SyntaxError.ofFault buffer fault index).message}"

theorem decode_of_broken {buffer : List UInt8} {fault : Fault} {index : Nat}
    (h : Reading.front buffer = .broken fault index) (limit : Nat) :
    decode limit buffer =
      (some (brokenFrame buffer fault index), resynchronize (skipBroken buffer)) := by
  rw [decode, h]
  rfl

theorem brokenAtFront_of_broken {buffer : List UInt8} {fault : Fault} {index : Nat}
    (h : Reading.front buffer = .broken fault index) : brokenAtFront buffer = true := by
  rw [brokenAtFront, h]

theorem brokenAtFront_of_complete {buffer rest : List UInt8} {v : Value}
    (h : Reading.front buffer = .complete v rest) : brokenAtFront buffer = false := by
  rw [brokenAtFront, h]

theorem resynchronize_of_broken {bytes : List UInt8} (h : brokenAtFront bytes = true) :
    resynchronize bytes = resynchronize (skipBroken bytes) := by
  have hne : bytes ≠ [] := by
    rintro rfl
    cases h
  rw [resynchronize, if_pos h, if_neg hne]

theorem resynchronize_of_not_broken {bytes : List UInt8} (h : brokenAtFront bytes = false) :
    resynchronize bytes = bytes := by
  rw [resynchronize, h]
  rfl

/-! ### The life of a decoder -/

/-- Takes in the chunks of a stream and drains the buffer behind each: all frames found, and what is
left behind the last chunk. -/
def feed (limit : Nat) (buffer : List UInt8) : List (List UInt8) → List Frame × List UInt8
  | [] => ([], buffer)
  | chunk :: chunks =>
    let (found, rest) := drain limit (buffer ++ chunk)
    let (more, last) := feed limit rest chunks
    (found ++ more, last)

theorem feed_cons (limit : Nat) (buffer chunk : List UInt8) (chunks : List (List UInt8)) :
    feed limit buffer (chunk :: chunks) =
      ((drain limit (buffer ++ chunk)).1 ++
          (feed limit (drain limit (buffer ++ chunk)).2 chunks).1,
        (feed limit (drain limit (buffer ++ chunk)).2 chunks).2) := rfl

/-- One more chunk is drained behind what the others left. -/
theorem feed_concat (limit : Nat) (buffer : List UInt8) (chunks : List (List UInt8))
    (chunk : List UInt8) :
    feed limit buffer (chunks ++ [chunk]) =
      ((feed limit buffer chunks).1 ++ (drain limit ((feed limit buffer chunks).2 ++ chunk)).1,
        (drain limit ((feed limit buffer chunks).2 ++ chunk)).2) := by
  induction chunks generalizing buffer with
  | nil => simp [feed]
  | cons first chunks ih => rw [List.cons_append, feed_cons, feed_cons, ih, List.append_assoc]

/-- No more is kept than has come. -/
theorem length_feed_le (limit : Nat) (buffer : List UInt8) (chunks : List (List UInt8)) :
    (feed limit buffer chunks).2.length ≤ buffer.length + chunks.flatten.length := by
  induction chunks generalizing buffer with
  | nil => exact Nat.le_add_right _ _
  | cons chunk chunks ih =>
    have hkept := length_drain_le limit (buffer ++ chunk)
    rw [feed_cons, List.flatten_cons, List.length_append]
    rw [List.length_append] at hkept
    refine Nat.le_trans (ih (drain limit (buffer ++ chunk)).2) ?_
    omega

end EnvelopeClient.Frame
