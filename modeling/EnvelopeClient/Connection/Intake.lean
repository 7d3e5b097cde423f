import EnvelopeClient.Frame.Decoder

/-!
# What a reader holds

An `Intake` holds the bytes that have been read and not decoded yet, in a store with a number of
places. A read takes no more bytes than there are free places behind them, so the store decides how
much of the stream the decoder sees at once; that shows in what it drops behind a broken document.

Decoding leaves used places in front of the bytes, but it frees none behind them, except that bytes
dropped all at once give their places back. When no place is free, the bytes move to the front of
the store if they fill at most half of it, and otherwise the store doubles: `room_makeRoom_pos` says
that there is room then.
-/

namespace EnvelopeClient

/-- The bytes a reader has not decoded yet, and the store they are in. -/
structure Intake where
  bytes : List UInt8
  /-- The free places behind the bytes. -/
  room : Nat
  /-- All places of the store. -/
  places : Nat

namespace Intake

/-- The places of a new store. -/
def initialPlaces : Nat := 8192

/-- Nothing read yet. -/
def empty : Intake := ⟨[], initialPlaces, initialPlaces⟩

/-- Sees to it that a place is free. -/
def makeRoom (i : Intake) : Intake :=
  if 0 < i.room then i
  else if 2 * i.bytes.length ≤ i.places then { i with room := i.places - i.bytes.length }
  else { i with room := i.places, places := 2 * i.places }

/-- Puts what was read behind the bytes. -/
def append (i : Intake) (chunk : List UInt8) : Intake :=
  { i with bytes := i.bytes ++ chunk, room := i.room - chunk.length }

/-- How many bytes go at once when nothing is left behind a broken document: those from the last
`{` on at which decoding tried to start again, or all of them. -/
def droppedBroken (bytes : List UInt8) : Nat :=
  let behind := (bytes.dropWhile Frame.isSpace).drop 1
  let last := behind.reverse.takeWhile (· ≠ 0x7b)
  if last.length = behind.length then bytes.length else last.length + 1

/-- How many bytes are dropped all at once when decoding leaves nothing of them. -/
def dropped (bytes : List UInt8) : Nat :=
  match Json.Reading.front bytes with
  | .complete _ _ => 0
  | .broken _ _ => droppedBroken bytes
  | .blank | .incomplete _ => bytes.length

/-- Decoding leaves `rest`. -/
def leave (i : Intake) (rest : List UInt8) : Intake :=
  { i with bytes := rest, room := if rest.isEmpty then i.room + dropped i.bytes else i.room }

/-- Takes the next frame off the bytes. -/
def decode (limit : Nat) (i : Intake) : Option Frame × Intake :=
  let (frame, rest) := Frame.decode limit i.bytes
  (frame, i.leave rest)

/-- Takes the next frame off the bytes, behind which the stream has ended. -/
def decodeAtEnd (limit : Nat) (i : Intake) : Option Frame × Intake :=
  let (frame, rest) := Frame.decodeAtEnd limit i.bytes
  (frame, i.leave rest)

@[simp] theorem bytes_makeRoom (i : Intake) : i.makeRoom.bytes = i.bytes := by
  simp only [makeRoom]
  split
  · rfl
  · split <;> rfl

/-- Once room has been made, a read can take something. -/
theorem room_makeRoom_pos {i : Intake} (hplaces : 0 < i.places) : 0 < i.makeRoom.room := by
  by_cases hroom : 0 < i.room
  · simp [makeRoom, hroom]
  · by_cases hlength : 2 * i.bytes.length ≤ i.places
    · simp only [makeRoom, if_neg hroom, if_pos hlength]
      omega
    · simpa only [makeRoom, if_neg hroom, if_neg hlength] using hplaces

end Intake

end EnvelopeClient
