import EnvelopeClient.Client.Basic
import EnvelopeClient.Connection.Session

/-!
# Runs of a client

A run of a client is a list of moves in any order: requests begin, are polled at any time with
whatever the dialled socket answers, and are dropped wherever they stand; peers write, read, end
their streams and stop reading; faults strike; readers take their steps or vanish.
-/

namespace EnvelopeClient

/-- What happens to a connection without a caller. -/
inductive Connection.Incident where
  | peerWrites (bytes : List UInt8)
  /-- The peer reads so many bytes at most. -/
  | peerReads (count : Nat)
  | peerEnds
  | peerAbandons
  | trap (operation : Operation) (trap : Trap)
  /-- The reader takes a step, if it can. -/
  | reader
  /-- The reader vanishes without closing the connection. -/
  | abort

/-- The peer reads so many bytes at most. -/
def Connection.peerRead (c : Connection) (count : Nat) : Connection :=
  { c with outbound := { c.outbound with unread := c.outbound.unread.drop count } }

/-- What an incident does. -/
def Connection.befall (c : Connection) : Incident → Connection
  | .peerWrites bytes => c.peerWrite bytes
  | .peerReads count => c.peerRead count
  | .peerEnds => c.peerEnd
  | .peerAbandons => c.peerAbandon
  | .trap operation trap => Session.setTrap c operation trap
  | .reader => c.readerStep.getD c
  | .abort => c.abortReader

namespace Client

/-- One thing that happens to a client or to one of its connections. -/
inductive Move where
  | begin (event : String) (payload : Payload)
  | poll (id now : Nat) (dial : Dial)
  | drop (id : Nat)
  | incident (connection : Nat) (what : Connection.Incident)

/-- What a move does. -/
def move (c : Client) : Move → Client
  | .begin event payload => (c.begin event payload).2
  | .poll id now dial => (c.poll now dial id).2
  | .drop id => c.drop id
  | .incident connection what => c.onConnection connection (·.befall what)

/-- The client behind moves. -/
def run (c : Client) (moves : List Move) : Client := moves.foldl move c

end Client

end EnvelopeClient
