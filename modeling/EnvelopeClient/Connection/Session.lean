import EnvelopeClient.Connection.Call

/-!
# A session over one connection

A `Session` is a connection together with everybody who uses it: callers that hold waiters and
unfinished calls under names of their own, subscribers to its notices, the peer at the far end of
the transport, and a clock that only moves when told to.

`Session.step` takes one `Action` and lets the reader come to rest. Calls move when they are polled
and at no other time. The connection lives until the caller's own reference and every unfinished
call that keeps it are gone.
-/

namespace EnvelopeClient

/-- What a caller holds under a name. -/
inductive Handle where
  | waiter (id : Nat)
  | call (c : Call)

/-- A connection and its users. -/
structure Session where
  connection : Connection
  /-- Milliseconds since the start. -/
  now : Nat
  handles : List (String × Handle)
  subscriptions : List (String × Subscription)
  /-- Whether the caller's own reference is still held. -/
  owned : Bool
  /-- Whether the peer can still write. -/
  peerWrites : Bool
  /-- Whether the peer can still read. -/
  peerReads : Bool

/-- An operation of the transport that can be made to fail. -/
inductive Operation where
  | read
  | write
  | flush
  | shutdown
  deriving DecidableEq, Repr

/-- Something a user of the session does. -/
inductive Action where
  | register (name event : String)
  /-- Waits on a waiter, within a time if one is given; an unfinished call is just polled. -/
  | receive (name : String) (limit : Option Nat)
  | drop (name : String)
  | awaitOnce (name event : String)
  | request (name event : String) (payload : Payload)
  | send (name event : String) (payload : Payload)
  | close (name : String)
  | status
  | describe
  | subscribe (name : String)
  | notices (name : String)
  | dropConnection
  | peerWrite (bytes : List UInt8)
  | peerRead
  | peerEnd
  | peerAbandon
  /-- The peer ends its stream and stops reading. -/
  | peerClose
  | trap (operation : Operation) (trap : Trap)
  | advance (milliseconds : Nat)

/-- What an action answers. -/
inductive Answer where
  | nothing
  | waiting (event : String)
  | finished (outcome : Outcome)
  | failed (failure : Failure)
  | pending
  /-- There is nothing under that name. -/
  | gone
  | flag (b : Bool)
  | text (s : String)
  | notices (items : List Notice)
  | accepted (count : Nat)
  /-- That end of the transport is closed. -/
  | closed
  /-- Nobody reads what the peer writes. -/
  | brokenPipe
  | bytes (read : List UInt8) (atEnd : Bool)
  | noConnection

namespace Session

/-- A fresh connection with one owner and an attentive peer. -/
def start (peer : String) (capacity : Option Nat) : Session where
  connection := .opened peer capacity
  now := 0
  handles := []
  subscriptions := []
  owned := true
  peerWrites := true
  peerReads := true

/-- The state of the connection, while the caller refers to it. -/
def status? (s : Session) : Option Status :=
  if s.owned then some s.connection.status else none

/-- Number of waiters without an outcome, while the caller refers to the connection. -/
def pending? (s : Session) : Option Nat :=
  if s.owned then some s.connection.pending else none

/-- Drops what a name stands for. -/
def dropHandle (c : Connection) : Handle → Connection
  | .waiter id => c.dropWaiter id
  | .call call => call.drop c

/-- Takes a name's handle out. -/
def take (s : Session) (name : String) : Option Handle × Session :=
  (s.handles.lookup name, { s with handles := s.handles.filter (·.1 ≠ name) })

/-- Puts a handle under a name; what was there before is dropped. -/
def put (s : Session) (name : String) (handle : Handle) : Session :=
  let (old, s) := s.take name
  let connection :=
    match old with
    | some old => dropHandle s.connection old
    | none => s.connection
  { s with connection, handles := s.handles ++ [(name, handle)] }

/-- Answers with what polling came to, and keeps a call that is not finished. -/
def answerPoll (s : Session) (name : String) : Poll × Connection → Answer × Session
  | (.pending call, connection) => (.pending, { s with connection }.put name (.call call))
  | (.finished outcome, connection) => (.finished outcome, { s with connection })

/-- Whether anybody refers to the connection. -/
def isHeld (s : Session) : Bool :=
  s.owned || s.handles.any fun (_, handle) =>
    match handle with
    | .waiter _ => false
    | .call call => call.keeps

/-- Lets go of a connection nobody refers to, and lets the reader come to rest. -/
def rest (s : Session) : Session :=
  let connection :=
    if s.isHeld || s.connection.released then s.connection else s.connection.release
  { s with connection := connection.settle }

/-- Lays a trap for the next operation of a kind. -/
def setTrap (c : Connection) (operation : Operation) (trap : Trap) : Connection :=
  match operation with
  | .read => { c with inbound := { c.inbound with trap := some trap } }
  | .write => { c with outbound := { c.outbound with writeTrap := some trap } }
  | .flush => { c with outbound := { c.outbound with flushTrap := some trap } }
  | .shutdown => { c with outbound := { c.outbound with shutdownTrap := some trap } }

/-- An action of the caller that needs the connection. -/
def withConnection (s : Session) (act : Connection → Answer × Session) : Answer × Session :=
  if s.owned then act s.connection else (.noConnection, s)

/-- The peer ends its stream. -/
def endPeer (s : Session) : Session :=
  { s with peerWrites := false, connection := s.connection.peerEnd }

/-- The peer stops reading. -/
def abandonPeer (s : Session) : Session :=
  { s with peerReads := false, connection := s.connection.peerAbandon }

/-- What an action does by itself. -/
def act (s : Session) : Action → Answer × Session
  | .register name event => s.withConnection fun c =>
    match c.register event with
    | .error failure => (.failed failure, s)
    | .ok (id, connection) =>
      (.waiting event, { s with connection }.put name (.waiter id))
  | .receive name limit =>
    match s.take name with
    | (none, s) => (.gone, s)
    | (some (.waiter id), s) => s.answerPoll name (s.connection.receive s.now id limit)
    | (some (.call call), s) => s.answerPoll name (call.poll s.connection s.now)
  | .drop name =>
    match s.take name with
    | (none, s) => (.flag false, s)
    | (some handle, s) =>
      (.flag true, { s with connection := dropHandle s.connection handle })
  | .awaitOnce name event => s.withConnection fun c =>
    s.answerPoll name (c.awaitOnce s.now event)
  | .request name event payload => s.withConnection fun c =>
    s.answerPoll name (c.request s.now event payload)
  | .send name event payload => s.withConnection fun c =>
    s.answerPoll name (c.send s.now event payload)
  | .close name => s.withConnection fun c => s.answerPoll name (c.close s.now)
  | .status => s.withConnection fun c => (.text c.status.name, s)
  | .describe => s.withConnection fun c => (.text c.describe, s)
  | .subscribe name => s.withConnection fun c =>
    (.nothing, { s with
      subscriptions := (name, c.notices.subscribe) :: s.subscriptions.filter (·.1 ≠ name) })
  | .notices name =>
    match s.subscriptions.lookup name with
    | none => (.gone, s)
    | some subscription =>
      let (items, subscription) := s.connection.notices.receive subscription s.connection.isGone
      (.notices items, { s with
        subscriptions := (name, subscription) :: s.subscriptions.filter (·.1 ≠ name) })
  | .dropConnection => (.flag s.owned, { s with owned := false })
  | .peerWrite bytes =>
    if !s.peerWrites then (.closed, s)
    else if bytes.isEmpty then (.accepted 0, s)
    else if !s.connection.isReading then (.brokenPipe, s)
    else (.accepted bytes.length, { s with connection := s.connection.peerWrite bytes })
  | .peerRead =>
    if !s.peerReads then (.closed, s)
    else
      let (bytes, outbound) := s.connection.outbound.drain
      (.bytes bytes outbound.ended, { s with connection := { s.connection with outbound } })
  | .peerEnd => (.nothing, s.endPeer)
  | .peerAbandon => (.nothing, s.abandonPeer)
  | .peerClose => (.nothing, s.endPeer.abandonPeer)
  | .trap operation trap => (.nothing, { s with connection := setTrap s.connection operation trap })
  | .advance milliseconds => (.nothing, { s with now := s.now + milliseconds })

/-- Takes an action and lets everything come to rest. -/
def step (s : Session) (action : Action) : Answer × Session :=
  let (answer, s) := s.act action
  (answer, s.rest)

/-- What the waiters of a connection come to when its reader vanishes without a close: the state
and the number of waiters seen before the connection goes too, and each waiter's outcome. -/
def orphan (events : List String) (bytes : List UInt8) : Status × Nat × List Poll :=
  let (ids, c) := events.foldl (fun (ids, c) event =>
    match c.register event with
    | .ok (id, c) => (ids ++ [id], c)
    | .error _ => (ids, c)) (([] : List Nat), Connection.opened "transport" none)
  let c := (c.peerWrite bytes).settle.abortReader
  let released := c.release
  (c.status, c.pending, ids.map fun id => (released.receive 0 id none).1)

end Session

end EnvelopeClient
