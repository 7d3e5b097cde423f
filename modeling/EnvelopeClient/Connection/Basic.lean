import EnvelopeClient.Connection.Exchange
import EnvelopeClient.Connection.Intake
import EnvelopeClient.Connection.Notices
import EnvelopeClient.Connection.Pipe
import EnvelopeClient.Text.Quoted

/-!
# A connection and its reader

A `Connection` is one transport with its waiters. Its reader runs beside the callers: each
`readerStep` takes one frame, reads as much as there is room for, or ends. Envelopes go to the
waiters, undecodable frames are announced and skipped. The end of the stream, a read error and the
cancellation of the reader close the connection, which fails everyone who still waits.

`settle` runs the reader until only the outside world can move it again.
-/

namespace EnvelopeClient

/-- The reader of a connection. -/
inductive Reader where
  /-- Between steps: the bytes not decoded yet, whether they may hold a whole frame, and whether the
  stream has ended behind them. -/
  | running (intake : Intake) (readable atEnd : Bool)
  | ended

/-- One transport, its waiters and its reader. -/
structure Connection where
  /-- The name of the other side. -/
  peer : String
  exchange : Exchange
  notices : Notices
  reader : Reader
  /-- Whether the reader has been told to stop. -/
  cancelled : Bool
  inbound : Inbound
  outbound : Outbound
  /-- Who may write: the first has the write half, the others queue for it in order. -/
  turns : List Nat
  /-- The number of the next turn. -/
  nextTurn : Nat
  /-- Whether nobody refers to the connection any more. -/
  released : Bool

namespace Connection

/-- A connection over a fresh transport. -/
def opened (peer : String) (capacity : Option Nat) : Connection where
  peer := peer
  exchange := .opened
  notices := .empty
  reader := .running .empty false false
  cancelled := false
  inbound := .empty
  outbound := .empty capacity
  turns := []
  nextTurn := 0
  released := false

/-- The state of a connection. -/
def status (c : Connection) : Status := c.exchange.status

/-- Number of waiters without an outcome. -/
def pending (c : Connection) : Nat := c.exchange.pending

/-- How a connection is shown to a developer. -/
def describe (c : Connection) : String :=
  "Connection \x7b peer: " ++ Text.quoted c.peer ++ ", state: " ++ c.status.name ++ ", .. \x7d"

/-- Whether the reader still runs. -/
def isReading (c : Connection) : Bool :=
  match c.reader with
  | .running _ _ _ => true
  | .ended => false

/-- Closes the connection; only the first close has anyone to fail. -/
def closeFor (c : Connection) (reason : String) : Connection :=
  { c with exchange := c.exchange.close reason }

/-- Why a connection closed: by a caller, or because nobody holds it any more. -/
def closedLocally : String := "closed locally"

/-- Why a connection closed: the peer ended the stream. -/
def streamClosed : String := "stream closed"

/-- Why a connection closed: a write found the peer gone. -/
def peerWentAway : String := "peer went away during write"

/-- Why a connection closed: reading failed. -/
def streamError (failure : Failure) : String := s!"stream error: {failure.message}"

/-- What becomes of a frame. -/
def dispatch (c : Connection) : Frame → Connection
  | .envelope e => { c with exchange := (c.exchange.deliver e).2 }
  | .malformed reason => { c with notices := c.notices.send (.protocol reason) }

/-- The reader stops and closes the connection behind itself. -/
def endReader (c : Connection) (reason : String) : Connection :=
  { c.closeFor reason with reader := .ended }

/-- The reader takes up what a read comes to. -/
def takeRead (c : Connection) (intake : Intake) : Option Connection :=
  let intake := intake.makeRoom
  let (result, inbound) := c.inbound.read intake.room
  let c := { c with inbound }
  match result with
  | .waiting => none
  | .bytes chunk => some { c with reader := .running (intake.append chunk) true false }
  | .ended => some { c with reader := .running intake true true }
  | .failed fault =>
    let failure := fault.toFailure
    some ({ c with notices := c.notices.send failure }.endReader (streamError failure))

/-- One step of the reader, or `none` while it can only wait. A cancelled reader stops before it
looks at anything else. -/
def readerStep (c : Connection) : Option Connection :=
  match c.reader with
  | .ended => none
  | .running intake readable atEnd =>
    if c.cancelled then some (c.endReader closedLocally)
    else if !readable then c.takeRead intake
    else if atEnd then
      match intake.decodeAtEnd Frame.defaultLimit with
      | (some frame, rest) => some ({ c with reader := .running rest true true }.dispatch frame)
      | (none, _) => some (c.endReader streamClosed)
    else
      match intake.decode Frame.defaultLimit with
      | (some frame, rest) => some ({ c with reader := .running rest true false }.dispatch frame)
      | (none, rest) => some { c with reader := .running rest false false }

/-- A bound on the steps the reader has left: every byte costs at most a read, the end of a round of
decoding and a frame, and a few steps come at the end. -/
def work (c : Connection) : Nat :=
  let held :=
    match c.reader with
    | .running intake _ _ => intake.bytes.length
    | .ended => 0
  3 * (held + c.inbound.unread.length) + 4

/-- Runs the reader for at most so many steps. -/
def settleFor : Nat → Connection → Connection
  | 0, c => c
  | fuel + 1, c =>
    match c.readerStep with
    | none => c
    | some c => settleFor fuel c

/-- Runs the reader until it can only wait. -/
def settle (c : Connection) : Connection :=
  c.settleFor c.work

/-- The peer writes. A reader that has ended takes nothing more. -/
def peerWrite (c : Connection) (bytes : List UInt8) : Connection :=
  { c with inbound := c.inbound.write bytes }

/-- The peer ends its stream. -/
def peerEnd (c : Connection) : Connection :=
  { c with inbound := { c.inbound with ended := true } }

/-- The peer stops reading. -/
def peerAbandon (c : Connection) : Connection :=
  { c with outbound := { c.outbound with abandoned := true } }

/-- The last reference to the connection goes: the reader is told to stop, and the write half
closes. -/
def release (c : Connection) : Connection :=
  { c with cancelled := true, released := true, outbound := { c.outbound with ended := true } }

/-- The reader vanishes without closing the connection. -/
def abortReader (c : Connection) : Connection :=
  { c with reader := .ended }

/-- Whether nobody can give a waiter its outcome any more. -/
def isGone (c : Connection) : Bool :=
  c.released && !c.isReading

end Connection

end EnvelopeClient
