import EnvelopeClient.Config.Basic
import EnvelopeClient.Connection.Call

/-!
# A client and its requests

A client sends requests to one socket. In `perRequest` mode every request opens a connection of its
own and gives it up at its end. In `shared` mode the client stores one connection: a request takes
its turn at the slot, uses the stored connection if it is open, and otherwise connects and stores
the new one. A connect that fails or is abandoned leaves the slot as it was.

Requests move when they are polled. `Client.poll` is one such move; the answer of the dialled
socket is given to it from outside, as is the time. A connection that neither the slot nor a
request refers to is released.
-/

namespace EnvelopeClient

open Json

/-- What dialling the socket has come to. -/
inductive Dial where
  /-- There is no answer yet. -/
  | waiting
  | failed (failure : Failure)
  /-- There is a connection, which holds so many bytes for the peer to read; `none` is no limit. -/
  | accepted (capacity : Option Nat)

/-- How far a request has come. -/
inductive Progress where
  /-- Not polled yet. -/
  | fresh
  /-- At the wait for the slot. -/
  | queued (turn : Nat)
  /-- Connecting, with the slot held under a turn in shared mode. -/
  | dialling (turn : Option Nat)
  /-- Under way on a connection. -/
  | running (connection : Nat) (call : Call)

/-- A request that is not finished. -/
structure InFlight where
  event : String
  payload : Payload
  progress : Progress

/-- A client, every connection it ever opened, and its unfinished requests. -/
structure Client where
  config : Config
  /-- The connections by number, the first opened first. -/
  connections : List Connection
  /-- The number of the stored connection. -/
  stored : Option Nat
  /-- Who may look at the slot: the first has it, the others queue for it in order. -/
  turns : List Nat
  /-- The number of the next turn. -/
  nextTurn : Nat
  /-- The unfinished requests by number. -/
  requests : List (Nat × InFlight)
  /-- The number of the next request. -/
  nextRequest : Nat

namespace Client

/-- A client that has not connected yet. -/
def ofConfig (config : Config) : Client where
  config := config
  connections := []
  stored := none
  turns := []
  nextTurn := 0
  requests := []
  nextRequest := 0

/-- Begins a request; it does nothing until it is polled. -/
def begin (c : Client) (event : String) (payload : Payload) : Nat × Client :=
  (c.nextRequest, { c with
    requests := c.requests ++ [(c.nextRequest, ⟨event, payload, .fresh⟩)]
    nextRequest := c.nextRequest + 1 })

/-- Does something to one connection. -/
def onConnection (c : Client) (id : Nat) (act : Connection → Connection) : Client :=
  { c with connections := c.connections.modify id act }

/-- Whether an unfinished request is under way on a connection. -/
def isUsed (c : Client) (id : Nat) : Bool :=
  c.requests.any fun (_, request) =>
    match request.progress with
    | .running connection _ => connection = id
    | _ => false

/-- Whether anybody refers to a connection. -/
def isReferred (c : Client) (id : Nat) : Bool :=
  c.stored = some id || c.isUsed id

/-- Releases the connections nobody refers to. -/
def releaseUnused (c : Client) : Client :=
  { c with connections := c.connections.mapIdx fun id connection =>
      if c.isReferred id || connection.released then connection else connection.release }

/-- Gives up a turn at the slot. -/
def leaveTurns (c : Client) (turn : Option Nat) : Client :=
  match turn with
  | none => c
  | some turn => { c with turns := c.turns.filter (· ≠ turn) }

/-- The stored connection, if it is open. -/
def openConnection? (c : Client) : Option Nat :=
  c.stored.filter fun id => (c.connections[id]?).any (·.status = .open)

/-- What polling a request comes to. -/
inductive Poll where
  | pending
  | finished (reply : Reply)

/-- Sets how far a request has come. -/
def setProgress (c : Client) (id : Nat) (progress : Progress) : Client :=
  { c with requests := c.requests.map fun (n, request) =>
      if n = id then (n, { request with progress }) else (n, request) }

/-- Takes a finished request out, and releases the connections it leaves unused. -/
def finish (c : Client) (id : Nat) : Client :=
  { c with requests := c.requests.filter (·.1 ≠ id) }.releaseUnused

/-- The reply of a finished call. -/
def replyOf : Outcome → Reply
  | .done => .ok .null
  | .reply r => r

/-- Takes note of what polling a call on a connection came to. -/
def absorb (c : Client) (id connection : Nat) (result : EnvelopeClient.Poll × Connection) :
    Poll × Client :=
  let c := c.onConnection connection fun _ => result.2
  match result.1 with
  | .pending call => (.pending, c.setProgress id (.running connection call))
  | .finished outcome => (.finished (replyOf outcome), c.finish id)

/-- Begins a request's work on a connection. -/
def startOn (c : Client) (now id connection : Nat) (request : InFlight) : Poll × Client :=
  match c.connections[connection]? with
  | none => (.pending, c)
  | some conn =>
    c.absorb id connection
      (conn.ask now request.event request.payload c.config.timeouts.request?)

/-- A request that is connecting. -/
def pollDial (c : Client) (now : Nat) (dial : Dial) (id : Nat) (request : InFlight)
    (turn : Option Nat) : Poll × Client :=
  match dial with
  | .waiting => (.pending, c.setProgress id (.dialling turn))
  | .failed failure => (.finished (.error failure), (c.leaveTurns turn).finish id)
  | .accepted capacity =>
    let connection := c.connections.length
    let c := { c with
      connections := c.connections ++ [Connection.opened c.config.socketPath capacity]
      stored := if turn.isSome then some connection else c.stored }
    let (poll, c) := (c.leaveTurns turn).startOn now id connection request
    (poll, c.releaseUnused)

/-- A request that waits for the slot. -/
def pollSlot (c : Client) (now : Nat) (dial : Dial) (id : Nat) (request : InFlight) (turn : Nat) :
    Poll × Client :=
  if c.turns.head? = some turn then
    match c.openConnection? with
    | some connection => (c.leaveTurns (some turn)).startOn now id connection request
    | none => c.pollDial now dial id request (some turn)
  else (.pending, c.setProgress id (.queued turn))

/-- Whether polling a request would dial the socket. -/
def wouldDial (c : Client) (id : Nat) : Bool :=
  match c.requests.lookup id with
  | none => false
  | some request =>
    match request.progress with
    | .fresh =>
      match c.config.mode with
      | .perRequest => true
      | .shared => c.turns.isEmpty && c.openConnection?.isNone
    | .queued turn => c.turns.head? = some turn && c.openConnection?.isNone
    | .dialling _ => true
    | .running _ _ => false

/-- Takes a request as far as it can go. -/
def poll (c : Client) (now : Nat) (dial : Dial) (id : Nat) : Poll × Client :=
  match c.requests.lookup id with
  | none => (.pending, c)
  | some request =>
    match request.progress with
    | .fresh =>
      match c.config.mode with
      | .perRequest => c.pollDial now dial id request none
      | .shared =>
        let turn := c.nextTurn
        let c := { c with turns := c.turns ++ [turn], nextTurn := turn + 1 }
        c.pollSlot now dial id request turn
    | .queued turn => c.pollSlot now dial id request turn
    | .dialling turn => c.pollDial now dial id request turn
    | .running connection call =>
      match c.connections[connection]? with
      | none => (.pending, c)
      | some conn => c.absorb id connection (call.poll conn now)

/-- Drops an unfinished request, wherever it stands. -/
def drop (c : Client) (id : Nat) : Client :=
  match c.requests.lookup id with
  | none => c
  | some request =>
    let c :=
      match request.progress with
      | .fresh => c
      | .queued turn => c.leaveTurns (some turn)
      | .dialling turn => c.leaveTurns turn
      | .running connection call => c.onConnection connection call.drop
    c.finish id

/-- Lets the readers of all connections come to rest. -/
def settle (c : Client) : Client :=
  { c with connections := c.connections.map Connection.settle }

end Client

end EnvelopeClient
