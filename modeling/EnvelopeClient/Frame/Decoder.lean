import EnvelopeClient.Envelope
import EnvelopeClient.Json.Reader

/-!
# Frames of the inbound stream

The stream has no delimiters: the end of a document is where the JSON grammar says so. `decode`
takes the next frame off the front of a buffer. A document that is still incomplete waits for more
bytes, up to a limit; anything that is no envelope becomes a `malformed` frame, never an end of
the stream.

Behind a broken document decoding starts again at the next `{`. It may stand inside what was
broken, which finds the document that follows a truncated one; a run of such fragments is reported
once.
-/

namespace EnvelopeClient

open Json

/-- One unit of the inbound stream. -/
inductive Frame where
  | envelope (e : Envelope)
  /-- Bytes that could not be decoded, with the reason. -/
  | malformed (reason : String)

namespace Frame

/-- The largest incomplete document a buffer may hold: one mebibyte. -/
def defaultLimit : Nat := 1048576

/-- The blanks skipped before a broken document's first byte: those of JSON and the form feed. -/
def isSpace (b : UInt8) : Bool :=
  isBlank b || b = 0x0c

/-- The suffix from the first `{` on, or nothing. -/
def fromBrace (bytes : List UInt8) : List UInt8 :=
  bytes.dropWhile (· ≠ 0x7b)

/-- The suffix from the first `{` behind the start of the broken document at the front. -/
def skipBroken (bytes : List UInt8) : List UInt8 :=
  fromBrace ((bytes.dropWhile isSpace).drop 1)

theorem length_dropWhile_le (p : UInt8 → Bool) (bytes : List UInt8) :
    (bytes.dropWhile p).length ≤ bytes.length :=
  (List.dropWhile_sublist p).length_le

theorem skipBroken_length_lt {bytes : List UInt8} (h : bytes ≠ []) :
    (skipBroken bytes).length < bytes.length := by
  have h1 := length_dropWhile_le isSpace bytes
  have h2 := length_dropWhile_le (· ≠ 0x7b) ((bytes.dropWhile isSpace).drop 1)
  have h3 : 0 < bytes.length := List.length_pos_iff.mpr h
  simp only [skipBroken, fromBrace]
  simp only [List.length_drop] at h2
  omega

/-- Whether the document at the front is broken, and not valid, incomplete or absent. -/
def brokenAtFront (bytes : List UInt8) : Bool :=
  match Reading.front bytes with
  | .broken _ _ => true
  | _ => false

/-- Drops broken fragments until what is at the front is not broken. -/
def resynchronize (bytes : List UInt8) : List UInt8 :=
  if brokenAtFront bytes then
    if bytes = [] then [] else resynchronize (skipBroken bytes)
  else bytes
termination_by bytes.length
decreasing_by exact skipBroken_length_lt (by assumption)

/-- The frame of a document. -/
def ofDocument (v : Value) : Frame :=
  match Envelope.ofValue v with
  | .ok e => .envelope e
  | .error failure => .malformed failure.message

/-- Takes the next frame off a buffer. Without one, what is left is an incomplete document, or
nothing where there were only blanks. -/
def decode (limit : Nat) (buffer : List UInt8) : Option Frame × List UInt8 :=
  match Reading.front buffer with
  | .blank => (none, [])
  | .complete v rest => (some (ofDocument v), rest)
  | .incomplete _ =>
    if limit < buffer.length then
      (some (.malformed s!"frame too long: exceeded {limit} bytes"), [])
    else (none, buffer)
  | .broken fault index =>
    (some (.malformed s!"malformed json: {(SyntaxError.ofFault buffer fault index).message}"),
      resynchronize (skipBroken buffer))

/-- `decode` at the end of the stream, where an incomplete document is one more malformed frame. -/
def decodeAtEnd (limit : Nat) (buffer : List UInt8) : Option Frame × List UInt8 :=
  match decode limit buffer with
  | (none, []) => (none, [])
  | (none, rest) =>
    (some (.malformed s!"truncated message: {rest.length} bytes at end of stream"), [])
  | found => found

/-! ## Draining a buffer -/

theorem resynchronize_length_le (bytes : List UInt8) :
    (resynchronize bytes).length ≤ bytes.length := by
  fun_induction resynchronize bytes with
  | case1 => simp
  | case2 bytes _ hne ih => exact Nat.le_trans ih (Nat.le_of_lt (skipBroken_length_lt hne))
  | case3 => simp

/-- A frame always costs bytes. -/
theorem decode_length_lt {limit : Nat} {buffer rest : List UInt8} {frame : Frame}
    (h : decode limit buffer = (some frame, rest)) : rest.length < buffer.length := by
  simp only [decode] at h
  split at h
  · cases h
  · next hf => cases h; exact front_length_lt hf
  · split at h
    · next hlen => cases h; simp only [List.length_nil]; omega
    · cases h
  · next fault index hf =>
      cases h
      have hne : buffer ≠ [] := by
        rintro rfl
        simp [Reading.front, scan, State.finish, State.initial] at hf
      exact Nat.lt_of_le_of_lt (resynchronize_length_le _) (skipBroken_length_lt hne)

theorem decodeAtEnd_length_lt {limit : Nat} {buffer rest : List UInt8} {frame : Frame}
    (h : decodeAtEnd limit buffer = (some frame, rest)) : rest.length < buffer.length := by
  simp only [decodeAtEnd] at h
  split at h
  · cases h
  · next left hne hd =>
      cases h
      simp only [decode] at hd
      cases buffer with
      | nil => simp_all [Reading.front, scan, State.finish, State.initial]
      | cons b bytes => simp
  · exact decode_length_lt h

/-- `drain` with the frames found so far, the newest first. -/
def drainFrom (found : List Frame) (limit : Nat) (buffer : List UInt8) : List Frame × List UInt8 :=
  match _h : decode limit buffer with
  | (none, rest) => (found.reverse, rest)
  | (some frame, rest) => drainFrom (frame :: found) limit rest
termination_by buffer.length
decreasing_by exact decode_length_lt _h

/-- All frames `decode` finds, one after the other, and what is left behind them. -/
def drain (limit : Nat) (buffer : List UInt8) : List Frame × List UInt8 :=
  drainFrom [] limit buffer

/-- `drainAtEnd` with the frames found so far, the newest first. -/
def drainAtEndFrom (found : List Frame) (limit : Nat) (buffer : List UInt8) :
    List Frame × List UInt8 :=
  match _h : decodeAtEnd limit buffer with
  | (none, rest) => (found.reverse, rest)
  | (some frame, rest) => drainAtEndFrom (frame :: found) limit rest
termination_by buffer.length
decreasing_by exact decodeAtEnd_length_lt _h

/-- All frames `decodeAtEnd` finds, one after the other, and what is left behind them. -/
def drainAtEnd (limit : Nat) (buffer : List UInt8) : List Frame × List UInt8 :=
  drainAtEndFrom [] limit buffer

end Frame

end EnvelopeClient
