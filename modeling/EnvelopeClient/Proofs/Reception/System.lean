import EnvelopeClient.Proofs.Client.Runs
import EnvelopeClient.Proofs.Connection.Calls
import EnvelopeClient.Proofs.Connection.Reading
import EnvelopeClient.Proofs.Frame.Drain

/-!
# A reader among its users

`Reception` is a connection with a trace of what its reader did and of everything that was done to its
waiters, in the order in which it happened. Between the steps of the reader waiters are registered,
dropped and polled, messages are polled on their way out, the connection is closed, and whatever can
happen to the transport happens.

What the trace has to be is read off the codec: `Trace.codec` is all that decoding makes of the chunks
of a trace, drained behind each, and of what is left when the stream ends.
-/

namespace EnvelopeClient

/-- One thing done to an exchange. -/
inductive Exchange.Act where
  | register (event : String)
  | deliver (e : Envelope)
  | cancel (waiter : Nat)
  | settle (waiter : Nat)
  | close (reason : String)

namespace Exchange

/-- The message that is delivered. -/
def Act.envelope? : Act → Option Envelope
  | .deliver e => some e
  | _ => none

/-- What it does. -/
def act (x : Exchange) : Act → Exchange
  | .register event =>
    match x.register event with
    | .ok (_, y) => y
    | .error _ => x
  | .deliver e => (x.deliver e).2
  | .cancel waiter => x.cancel waiter
  | .settle waiter => x.settle waiter
  | .close reason => x.close reason

end Exchange

/-- The message of a frame. -/
def Frame.envelope? : Frame → Option Envelope
  | .envelope e => some e
  | .malformed _ => none

/-- What is announced of a frame. -/
def Frame.notice? : Frame → Option Failure
  | .envelope _ => none
  | .malformed reason => some (.protocol reason)

/-- Whether a message fails because the peer is gone. -/
def Connection.SendPoll.findsPeerGone : Connection.SendPoll → Bool
  | .finished (.error failure) => failure.isNotConnected
  | _ => false

/-- What polling a waiter does: it takes its outcome, or is dropped when its time is up. -/
def Connection.receiveActs (c : Connection) (now waiter : Nat) (deadline : Option Deadline) :
    List Exchange.Act :=
  match c.outcome? waiter with
  | some _ => [.settle waiter]
  | none => if (Call.isPast deadline now).isSome then [.cancel waiter] else []

/-! ### Traces -/

/-- An entry of a trace. -/
inductive Entry where
  /-- The reader takes a step. -/
  | read (r : Reading)
  /-- Somebody else does something to the exchange. -/
  | act (a : Exchange.Act)
  /-- The reader vanishes without closing the connection. -/
  | vanished

namespace Entry

/-- The bytes that are read. -/
def chunk? : Entry → Option (List UInt8)
  | .read (.bytes chunk) => some chunk
  | _ => none

/-- The frame that is taken. -/
def frame? : Entry → Option Frame
  | .read (.frame f) => some f
  | _ => none

/-- What is done to the exchange. -/
def act? : Entry → Option Exchange.Act
  | .read .stop => some (.close Connection.closedLocally)
  | .read (.failed fault) => some (.close (Connection.streamError fault.toFailure))
  | .read (.frame (.envelope e)) => some (.deliver e)
  | .read .finish => some (.close Connection.streamClosed)
  | .read _ => none
  | .act a => some a
  | .vanished => none

/-- Why a read fails. -/
def failure? : Entry → Option Failure
  | .read (.failed fault) => some fault.toFailure
  | _ => none

/-- What is announced. -/
def notice? : Entry → Option Failure
  | .read (.frame f) => f.notice?
  | entry => entry.failure?

/-- Whether the stream is found to have ended. -/
def isEnd : Entry → Bool
  | .read .ended => true
  | _ => false

/-- Whether it is the end of the reader. -/
def isLast : Entry → Bool
  | .read .stop | .read (.failed _) | .read .finish | .vanished => true
  | _ => false

/-- Whether it is one of the causes for which a connection closes: the end of the stream, a read that
fails, and a close by anybody else, who is a caller that closes it or one whose write finds the peer
gone. -/
def isCause : Entry → Bool
  | .read .ended | .read (.failed _) | .act (.close _) => true
  | _ => false

theorem isCause_of_isEnd {entry : Entry} (h : entry.isEnd = true) : entry.isCause = true := by
  unfold isEnd at h
  split at h
  · rfl
  · cases h

theorem failure?_of_not_last {entry : Entry} (h : entry.isLast = false) :
    entry.failure? = none := by
  unfold failure?
  split
  · cases h
  · rfl

end Entry

/-- What happened at a connection, the oldest entry first. -/
abbrev Trace := List Entry

namespace Trace

/-- The chunks that were read. -/
def chunks (t : Trace) : List (List UInt8) := t.filterMap Entry.chunk?

/-- The frames that were taken. -/
def frames (t : Trace) : List Frame := t.filterMap Entry.frame?

/-- What was done to the exchange. -/
def acts (t : Trace) : List Exchange.Act := t.filterMap Entry.act?

/-- What was announced. -/
def announced (t : Trace) : List Failure := t.filterMap Entry.notice?

/-- The messages that were delivered. -/
def delivered (t : Trace) : List Envelope := t.acts.filterMap Exchange.Act.envelope?

/-- Why reads failed. -/
def failures (t : Trace) : List Failure := t.filterMap Entry.failure?

/-- Whether all of it was done by users, who deliver nothing. -/
def OfUsers (t : Trace) : Prop := ∀ entry ∈ t, ∃ a, entry = .act a ∧ a.envelope? = none

/-- Whether the stream was found to have ended. -/
def atEnd (t : Trace) : Bool := t.any Entry.isEnd

/-- The chunks drained one behind the other: all their frames, and what is left. -/
def fed (t : Trace) : List Frame × List UInt8 := Frame.feed Frame.defaultLimit [] t.chunks

/-- All frames of what was read, with those at the end of the stream. -/
def codec (t : Trace) : List Frame :=
  t.fed.1 ++ if t.atEnd then (Frame.drainAtEnd Frame.defaultLimit t.fed.2).1 else []

end Trace

/-! ### Runs -/

/-- A connection, what has happened at it, and what its peer has written. -/
structure Reception where
  connection : Connection
  trace : Trace
  sent : List UInt8

namespace Reception

open Connection

/-- One thing that happens. -/
inductive Event where
  | register (event : String)
  /-- A waiter is dropped. -/
  | drop (waiter : Nat)
  /-- A waiter is polled. -/
  | receive (now waiter : Nat) (deadline : Option Deadline)
  /-- A message queues for the write half. -/
  | queue (event : String) (payload : Payload)
  /-- A message on its way out is polled. -/
  | send (s : Sending)
  /-- A turn at the write half is given up. -/
  | leave (turn : Nat)
  /-- A caller closes the connection. -/
  | close (now : Nat)
  | incident (what : Incident)

/-- A fresh connection. -/
def start (peer : String) (capacity : Option Nat) : Reception := ⟨.opened peer capacity, [], []⟩

/-- What an event does to a connection. -/
def happen (c : Connection) : Event → Connection
  | .register event =>
    match c.register event with
    | .ok (_, c') => c'
    | .error _ => c
  | .drop waiter => c.dropWaiter waiter
  | .receive now waiter deadline => (Call.pollReceive c now waiter deadline true).2
  | .queue event payload =>
    match c.beginSend event payload with
    | .ok (_, c') => c'
    | .error _ => c
  | .send s => (c.pollSend s).2
  | .leave turn => c.leaveTurns turn
  | .close now => (c.close now).2
  | .incident what => c.befall what

/-- What a trace says of an event. -/
def entries (c : Connection) : Event → Trace
  | .register event => [.act (.register event)]
  | .drop waiter => [.act (.cancel waiter)]
  | .receive now waiter deadline => (c.receiveActs now waiter deadline).map .act
  | .queue _ _ | .leave _ => []
  | .send s => if (c.pollSend s).1.findsPeerGone then [.act (.close peerWentAway)] else []
  | .close _ => [.act (.close closedLocally)]
  | .incident .reader => (c.reading?.map Entry.read).toList
  | .incident .abort => [.vanished]
  | .incident _ => []

/-- What the peer writes at an event. -/
def written : Event → List UInt8
  | .incident (.peerWrites bytes) => bytes
  | _ => []

/-- What happens at an event. -/
def step (s : Reception) (event : Event) : Reception :=
  ⟨happen s.connection event, s.trace ++ entries s.connection event, s.sent ++ written event⟩

/-- The state behind events. -/
def run (s : Reception) (events : List Event) : Reception := events.foldl step s

end Reception

end EnvelopeClient
