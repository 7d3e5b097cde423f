import EnvelopeClient.Connection.Basic
import EnvelopeClient.Proofs.Connection.Evolution

/-!
# The steps of a reader

A step of the reader is one of few things (`Reading`), and `Connection.Reads` says of each what has to
be the case for it and all that it changes. `reads_readerStep` says that the list is complete, so that
what a reader does is told from it and `readerStep` is not opened again.
-/

namespace EnvelopeClient

/-- What a step of the reader is. -/
inductive Reading where
  /-- The reader has been told to stop. -/
  | stop
  | bytes (chunk : List UInt8)
  /-- The stream has ended. -/
  | ended
  /-- A read fails. -/
  | failed (fault : IoFault)
  /-- A frame is taken off what has been read. -/
  | frame (f : Frame)
  /-- What is left has to wait for more bytes. -/
  | rest
  /-- The stream has ended, and nothing is left. -/
  | finish

namespace Intake

variable {intake rest : Intake} {frame? : Option Frame} {limit : Nat}

theorem bytes_of_decode (h : intake.decode limit = (frame?, rest)) :
    Frame.decode limit intake.bytes = (frame?, rest.bytes) := by
  cases h
  rfl

theorem bytes_of_decodeAtEnd (h : intake.decodeAtEnd limit = (frame?, rest)) :
    Frame.decodeAtEnd limit intake.bytes = (frame?, rest.bytes) := by
  cases h
  rfl

end Intake

namespace Connection

variable {c c' : Connection} {r : Reading}

/-- What the next step of the reader is, unless it can only wait. -/
def reading? (c : Connection) : Option Reading :=
  match c.reader with
  | .ended => none
  | .running intake readable atEnd =>
    if c.cancelled then some .stop
    else if !readable then
      match (c.inbound.read intake.makeRoom.room).1 with
      | .waiting => none
      | .bytes chunk => some (.bytes chunk)
      | .ended => some .ended
      | .failed fault => some (.failed fault)
    else if atEnd then
      match (intake.decodeAtEnd Frame.defaultLimit).1 with
      | some f => some (.frame f)
      | none => some .finish
    else
      match (intake.decode Frame.defaultLimit).1 with
      | some f => some (.frame f)
      | none => some .rest

/-- What a step of the reader of `c` leads to. -/
inductive Reads (c : Connection) : Reading → Connection → Prop where
  | stop {intake : Intake} {readable atEnd : Bool}
      (hreader : c.reader = .running intake readable atEnd) (hcancelled : c.cancelled = true) :
      Reads c .stop (c.endReader closedLocally)
  | bytes {intake : Intake} {atEnd : Bool} {chunk : List UInt8} {inbound : Inbound}
      (hreader : c.reader = .running intake false atEnd) (hcancelled : c.cancelled = false)
      (hread : c.inbound.read intake.makeRoom.room = (.bytes chunk, inbound)) :
      Reads c (.bytes chunk)
        { c with inbound, reader := .running (intake.makeRoom.append chunk) true false }
  | ended {intake : Intake} {atEnd : Bool} {inbound : Inbound}
      (hreader : c.reader = .running intake false atEnd) (hcancelled : c.cancelled = false)
      (hread : c.inbound.read intake.makeRoom.room = (.ended, inbound)) :
      Reads c .ended { c with inbound, reader := .running intake.makeRoom true true }
  | failed {intake : Intake} {atEnd : Bool} {fault : IoFault} {inbound : Inbound}
      (hreader : c.reader = .running intake false atEnd) (hcancelled : c.cancelled = false)
      (hread : c.inbound.read intake.makeRoom.room = (.failed fault, inbound)) :
      Reads c (.failed fault)
        ({ c with inbound, notices := c.notices.send fault.toFailure }.endReader
          (streamError fault.toFailure))
  | frame {intake rest : Intake} {f : Frame}
      (hreader : c.reader = .running intake true false) (hcancelled : c.cancelled = false)
      (hdecode : intake.decode Frame.defaultLimit = (some f, rest)) :
      Reads c (.frame f) ({ c with reader := .running rest true false }.dispatch f)
  | rest {intake rest : Intake}
      (hreader : c.reader = .running intake true false) (hcancelled : c.cancelled = false)
      (hdecode : intake.decode Frame.defaultLimit = (none, rest)) :
      Reads c .rest { c with reader := .running rest false false }
  | lastFrame {intake rest : Intake} {f : Frame}
      (hreader : c.reader = .running intake true true) (hcancelled : c.cancelled = false)
      (hdecode : intake.decodeAtEnd Frame.defaultLimit = (some f, rest)) :
      Reads c (.frame f) ({ c with reader := .running rest true true }.dispatch f)
  | finish {intake rest : Intake}
      (hreader : c.reader = .running intake true true) (hcancelled : c.cancelled = false)
      (hdecode : intake.decodeAtEnd Frame.defaultLimit = (none, rest)) :
      Reads c .finish (c.endReader streamClosed)

/-- What a step comes to: there is none and nothing to be said of it, or it is the one that was
said. -/
def Steps (c : Connection) (result : Option Connection) : Prop :=
  match result with
  | none => c.reading? = none
  | some c' => ∃ r, c.reading? = some r ∧ Reads c r c'

/-- A reader that has nothing to decode reads, or waits. -/
theorem steps_takeRead {intake : Intake} {atEnd : Bool}
    (hreader : c.reader = .running intake false atEnd) (hcancelled : c.cancelled = false) :
    c.Steps (c.takeRead intake) := by
  have hreading : ∀ {result : ReadResult} {inbound : Inbound},
      c.inbound.read intake.makeRoom.room = (result, inbound) →
        c.reading? = match result with
          | .waiting => none
          | .bytes chunk => some (.bytes chunk)
          | .ended => some .ended
          | .failed fault => some (.failed fault) := by
    intro result inbound hread
    simp [reading?, hreader, hcancelled, hread]
  unfold takeRead
  cases hread : c.inbound.read intake.makeRoom.room with
  | mk result inbound =>
    simp only [hread]
    cases result with
    | waiting => exact hreading hread
    | bytes chunk => exact ⟨_, hreading hread, .bytes hreader hcancelled hread⟩
    | ended => exact ⟨_, hreading hread, .ended hreader hcancelled hread⟩
    | failed fault => exact ⟨_, hreading hread, .failed hreader hcancelled hread⟩

theorem steps_readerStep (c : Connection) : c.Steps c.readerStep := by
  unfold readerStep
  cases hreader : c.reader with
  | ended =>
    show c.reading? = none
    rw [reading?, hreader]
  | running intake readable atEnd =>
    simp only
    by_cases hstop : c.cancelled = true
    · rw [if_pos hstop]
      exact ⟨.stop, by simp [reading?, hreader, hstop], .stop hreader hstop⟩
    · have hcancelled : c.cancelled = false := eq_false_of_ne_true hstop
      rw [if_neg hstop]
      cases readable with
      | false => exact steps_takeRead hreader hcancelled
      | true =>
        cases atEnd with
        | true =>
          cases hdecode : intake.decodeAtEnd Frame.defaultLimit with
          | mk frame? rest =>
            have hreading : c.reading? = some (match frame? with
                | some f => .frame f
                | none => .finish) := by
              simp only [reading?, hreader, hcancelled, hdecode]
              cases frame? <;> rfl
            cases frame? with
            | none => exact ⟨_, hreading, .finish hreader hcancelled hdecode⟩
            | some f => exact ⟨_, hreading, .lastFrame hreader hcancelled hdecode⟩
        | false =>
          cases hdecode : intake.decode Frame.defaultLimit with
          | mk frame? rest =>
            have hreading : c.reading? = some (match frame? with
                | some f => .frame f
                | none => .rest) := by
              simp only [reading?, hreader, hcancelled, hdecode]
              cases frame? <;> rfl
            cases frame? with
            | none => exact ⟨_, hreading, .rest hreader hcancelled hdecode⟩
            | some f => exact ⟨_, hreading, .frame hreader hcancelled hdecode⟩

theorem reads_readerStep (h : c.readerStep = some c') :
    ∃ r, c.reading? = some r ∧ Reads c r c' := by
  have hsteps := steps_readerStep c
  rwa [h] at hsteps

theorem reading?_of_rest (h : c.readerStep = none) : c.reading? = none := by
  have hsteps := steps_readerStep c
  rwa [h] at hsteps

/-- A reader that has something to decode does not wait. -/
theorem not_readable_of_rest {intake : Intake} {readable atEnd : Bool} (h : c.readerStep = none)
    (hreader : c.reader = .running intake readable atEnd) : readable = false := by
  cases readable with
  | false => rfl
  | true =>
    have hnone := reading?_of_rest h
    rw [reading?, hreader] at hnone
    cases hcancelled : c.cancelled with
    | true => simp [hcancelled] at hnone
    | false =>
      cases atEnd with
      | true => cases hnext : (intake.decodeAtEnd Frame.defaultLimit).1 <;>
          simp [hcancelled, hnext] at hnone
      | false => cases hnext : (intake.decode Frame.defaultLimit).1 <;>
          simp [hcancelled, hnext] at hnone

/-- A frame concerns waiters and subscribers only, and closes nothing. -/
theorem exists_dispatch (c : Connection) (f : Frame) : ∃ exchange notices,
    c.dispatch f = { c with exchange, notices } ∧ exchange.status = c.status := by
  cases f with
  | envelope e => exact ⟨_, _, rfl, Exchange.status_deliver _ e⟩
  | malformed reason => exact ⟨_, _, rfl, rfl⟩

/-- A reader does not write, and asks for no turn. -/
theorem Reads.outbound (h : Reads c r c') :
    c'.outbound = c.outbound ∧ c'.turns = c.turns ∧ c'.nextTurn = c.nextTurn := by
  have hdispatch : ∀ (reader : Reader) (f : Frame),
      (dispatch { c with reader } f).outbound = c.outbound ∧
        (dispatch { c with reader } f).turns = c.turns ∧
        (dispatch { c with reader } f).nextTurn = c.nextTurn := by
    intro reader f
    obtain ⟨exchange, notices, hsame, -⟩ := exists_dispatch { c with reader } f
    rw [hsame]
    exact ⟨rfl, rfl, rfl⟩
  cases h with
  | frame _ _ _ => exact hdispatch _ _
  | lastFrame _ _ _ => exact hdispatch _ _
  | stop _ _ | bytes _ _ _ | ended _ _ _ | failed _ _ _ | rest _ _ _ | finish _ _ _ =>
    exact ⟨rfl, rfl, rfl⟩

end Connection

end EnvelopeClient
