import EnvelopeClient.Connection.Basic
import EnvelopeClient.Payload

/-!
# Calls on a connection

A call is something a caller has begun and not finished: waiting for a message, sending one, or a
sequence of both. It moves only when it is polled; `Call.poll` takes it as far as it can go and
says what is left of it, or how it ended. A call can be dropped at any point, and then gives back
what it holds: its waiters and its turn at the write half.

* A message is written in one turn. Turns are granted in the order in which they were asked for;
  a turn that is given up passes to the next, whether it was used or not.
* A result that is there wins over a deadline that has passed.
* While a request of the client waits for its reply it also listens for an error message. The
  first of the two to be there decides; a connection that closes after the error message does not
  hide it.
-/

namespace EnvelopeClient

open Json

/-- A message on its way out: its turn at the write half, and the bytes not written yet. -/
structure Sending where
  event : String
  turn : Nat
  left : List UInt8

/-- When a call gives up, and after how many milliseconds that is. -/
structure Deadline where
  time : Nat
  limit : Nat

/-- A call that has begun. -/
inductive Call where
  /-- Waiting for a message. `keeps` says whether the call keeps the connection alive. -/
  | receive (waiter : Nat) (deadline : Option Deadline) (keeps : Bool)
  /-- Sending a message. -/
  | send (s : Sending)
  /-- Sending a request whose waiter is registered. -/
  | request (waiter : Nat) (s : Sending)
  /-- Closing, at the wait for the write half. -/
  | close (turn : Nat)
  /-- A client's request that is being sent, with the waiters for its reply and for an error, and
  the time it may wait once it is sent. -/
  | ask (reply : Nat) (error : Option Nat) (s : Sending) (limit : Option Nat)
  /-- A client's request that waits for its answer. -/
  | hear (event : String) (reply : Nat) (error : Option Nat) (deadline : Option Deadline)

/-- How a call ended. -/
inductive Outcome where
  /-- It has been done. -/
  | done
  | reply (r : Reply)

/-- What polling a call comes to. -/
inductive Poll where
  | pending (call : Call)
  | finished (outcome : Outcome)

/-- The failure of a call whose time is up. -/
def Deadline.failure (event : String) (limit : Nat) : Failure :=
  .timeout s!"no '{event}' reply within {limit} ms"

/-- A call that ended in failure. -/
def Poll.failed (failure : Failure) : Poll :=
  .finished (.reply (.error failure))

namespace Connection

/-- Whether a turn has the write half. -/
def hasTurn (c : Connection) (turn : Nat) : Bool :=
  c.turns.head? = some turn

/-- Asks for the write half. -/
def joinTurns (c : Connection) : Nat × Connection :=
  (c.nextTurn, { c with turns := c.turns ++ [c.nextTurn], nextTurn := c.nextTurn + 1 })

/-- Gives up a turn, used or not. -/
def leaveTurns (c : Connection) (turn : Nat) : Connection :=
  { c with turns := c.turns.filter (· ≠ turn) }

/-- Registers a waiter for the next message of a tag. -/
def register (c : Connection) (event : String) : Except Failure (Nat × Connection) :=
  match c.exchange.register event with
  | .ok (id, exchange) => .ok (id, { c with exchange })
  | .error failure => .error failure

/-- Drops a waiter. -/
def dropWaiter (c : Connection) (id : Nat) : Connection :=
  { c with exchange := c.exchange.cancel id }

/-- Drops a waiter there may be. -/
def dropWaiter? (c : Connection) : Option Nat → Connection
  | none => c
  | some id => c.dropWaiter id

/-- What a waiter was given, once it can be given nothing else. -/
def outcome? (c : Connection) (id : Nat) : Option Reply :=
  match c.exchange.outcome? id with
  | some reply => some reply
  | none =>
    if c.isGone then some (.error (Exchange.droppedFailure (c.exchange.eventOf id))) else none

/-- A waiter has taken its outcome. -/
def settleWaiter (c : Connection) (id : Nat) : Connection :=
  { c with exchange := c.exchange.settle id }

/-- Begins to send a message: its bytes are made, the connection has to be open, and the message
queues for the write half. -/
def beginSend (c : Connection) (event : String) (payload : Payload) :
    Except Failure (Sending × Connection) :=
  match payload.toValue with
  | .error fault => .error (.protocol s!"failed to serialize '{event}' payload: {fault.message}")
  | .ok data =>
    if c.status = .open then
      let (turn, c) := c.joinTurns
      .ok (⟨event, turn, (Envelope.mk event data).toBytes⟩, c)
    else .error (.notConnected s!"cannot send '{event}' in state {c.status.name}")

/-- What sending comes to for now. -/
inductive SendPoll where
  | pending (s : Sending)
  | finished (result : Except Failure Unit)

/-- A write failed. One that says the peer is gone closes the connection. -/
def failWrite (c : Connection) (fault : IoFault) : Failure × Connection :=
  let failure := fault.toFailure
  (failure, if failure.isNotConnected then c.closeFor peerWentAway else c)

/-- Ends a turn at which writing failed. -/
def endWrite (c : Connection) (turn : Nat) (fault : IoFault) : SendPoll × Connection :=
  let (failure, c) := c.failWrite fault
  (.finished (.error failure), c.leaveTurns turn)

/-- Writes a message as far as there is room, and flushes it behind its last byte. -/
def pollSend (c : Connection) (s : Sending) : SendPoll × Connection :=
  if c.hasTurn s.turn then
    let (result, outbound) := c.outbound.write s.left
    let c := { c with outbound }
    match result with
    | .blocked left => (.pending { s with left }, c)
    | .failed fault => c.endWrite s.turn fault
    | .done =>
      let (fault?, outbound) := c.outbound.flush
      let c := { c with outbound }
      match fault? with
      | some fault => c.endWrite s.turn fault
      | none => (.finished (.ok ()), c.leaveTurns s.turn)
  else (.pending s, c)

end Connection

/-- What a client makes of an error message: a string as it is, anything else as its text. -/
def remoteMessage : Value → String
  | .string s => s
  | v => v.compact

namespace Call

/-- Whether a call keeps the connection alive. -/
def keeps : Call → Bool
  | .receive _ _ keeps => keeps
  | _ => true

/-- Whether a deadline has passed. -/
def isPast (deadline : Option Deadline) (now : Nat) : Option Deadline :=
  deadline.filter fun d => d.time ≤ now

/-- Polls a wait for a message. -/
def pollReceive (c : Connection) (now waiter : Nat) (deadline : Option Deadline) (keeps : Bool) :
    Poll × Connection :=
  match c.outcome? waiter with
  | some reply => (.finished (.reply reply), c.settleWaiter waiter)
  | none =>
    match isPast deadline now with
    | some d =>
      (.failed (Deadline.failure (c.exchange.eventOf waiter) d.limit), c.dropWaiter waiter)
    | none => (.pending (.receive waiter deadline keeps), c)

/-- What a client's request makes of the outcomes there are: its answer, once it has one. -/
def verdict? (reply error : Option Reply) : Option Reply :=
  match reply, error with
  | some (.error _), some (.ok data) => some (.error (.remote (remoteMessage data)))
  | some r, _ => some r
  | none, some (.ok data) => some (.error (.remote (remoteMessage data)))
  | none, _ => none

/-- Polls a client's wait for its answer. -/
def pollHear (c : Connection) (now : Nat) (event : String) (reply : Nat) (error : Option Nat)
    (deadline : Option Deadline) : Poll × Connection :=
  match verdict? (c.outcome? reply) (error.bind c.outcome?) with
  | some answer => (.finished (.reply answer), (c.dropWaiter? error).dropWaiter reply)
  | none =>
    match isPast deadline now with
    | some d =>
      (.failed (Deadline.failure event d.limit), (c.dropWaiter? error).dropWaiter reply)
    | none => (.pending (.hear event reply error deadline), c)

/-- A deadline that starts now. -/
def deadlineFrom (now : Nat) (limit : Option Nat) : Option Deadline :=
  limit.map fun ms => ⟨now + ms, ms⟩

/-- Takes a call as far as it can go. -/
def poll (call : Call) (c : Connection) (now : Nat) : Poll × Connection :=
  match call with
  | .receive waiter deadline keeps => pollReceive c now waiter deadline keeps
  | .send s =>
    match c.pollSend s with
    | (.pending s, c) => (.pending (.send s), c)
    | (.finished (.ok ()), c) => (.finished .done, c)
    | (.finished (.error failure), c) => (.failed failure, c)
  | .request waiter s =>
    match c.pollSend s with
    | (.pending s, c) => (.pending (.request waiter s), c)
    | (.finished (.ok ()), c) => pollReceive c now waiter none true
    | (.finished (.error failure), c) => (.failed failure, c.dropWaiter waiter)
  | .close turn =>
    if c.hasTurn turn then
      let (_, outbound) := c.outbound.shutdown
      (.finished .done, { c with outbound }.leaveTurns turn)
    else (.pending (.close turn), c)
  | .ask reply error s limit =>
    match c.pollSend s with
    | (.pending s, c) => (.pending (.ask reply error s limit), c)
    | (.finished (.ok ()), c) => pollHear c now s.event reply error (deadlineFrom now limit)
    | (.finished (.error failure), c) => (.failed failure, (c.dropWaiter? error).dropWaiter reply)
  | .hear event reply error deadline => pollHear c now event reply error deadline

/-- Drops a call: its waiters and its turn go. -/
def drop (call : Call) (c : Connection) : Connection :=
  match call with
  | .receive waiter _ _ => c.dropWaiter waiter
  | .send s => c.leaveTurns s.turn
  | .request waiter s => (c.leaveTurns s.turn).dropWaiter waiter
  | .close turn => c.leaveTurns turn
  | .ask reply error s _ => ((c.leaveTurns s.turn).dropWaiter? error).dropWaiter reply
  | .hear _ reply error _ => (c.dropWaiter? error).dropWaiter reply

end Call

/-! ## The first poll of a call -/

namespace Connection

/-- Waits for the outcome of a waiter, within a time if one is given. -/
def receive (c : Connection) (now waiter : Nat) (limit : Option Nat) : Poll × Connection :=
  (Call.receive waiter (Call.deadlineFrom now limit) false).poll c now

/-- Waits for the next message of a tag. -/
def awaitOnce (c : Connection) (now : Nat) (event : String) : Poll × Connection :=
  match c.register event with
  | .error failure => (.failed failure, c)
  | .ok (id, c) => (Call.receive id none true).poll c now

/-- Sends a message. -/
def send (c : Connection) (now : Nat) (event : String) (payload : Payload) : Poll × Connection :=
  match c.beginSend event payload with
  | .error failure => (.failed failure, c)
  | .ok (s, c) => (Call.send s).poll c now

/-- Sends a message and waits for the next one of the same tag, for which it registers first. -/
def request (c : Connection) (now : Nat) (event : String) (payload : Payload) :
    Poll × Connection :=
  match c.register event with
  | .error failure => (.failed failure, c)
  | .ok (id, c) =>
    match c.beginSend event payload with
    | .error failure => (.failed failure, c.dropWaiter id)
    | .ok (s, c) => (Call.request id s).poll c now

/-- Closes the connection: the reader is told to stop, everyone who waits fails, and the write half
is shut down in its turn. -/
def close (c : Connection) (now : Nat) : Poll × Connection :=
  let c := { c with cancelled := true }.closeFor closedLocally
  let (turn, c) := c.joinTurns
  (Call.close turn).poll c now

/-- Registers the waiter that listens for an error message, unless that is the tag asked for. -/
def registerError (c : Connection) (event : String) : Except Failure (Option Nat × Connection) :=
  if event = Envelope.errorEvent then .ok (none, c)
  else
    match c.register Envelope.errorEvent with
    | .ok (id, c) => .ok (some id, c)
    | .error failure => .error failure

/-- A client's request: like `request`, but it also listens for an error message, and the time it
may wait counts from the moment it is sent. -/
def ask (c : Connection) (now : Nat) (event : String) (payload : Payload) (limit : Option Nat) :
    Poll × Connection :=
  match c.register event with
  | .error failure => (.failed failure, c)
  | .ok (reply, c) =>
    match c.registerError event with
    | .error failure => (.failed failure, c.dropWaiter reply)
    | .ok (error, c) =>
      match c.beginSend event payload with
      | .error failure => (.failed failure, (c.dropWaiter? error).dropWaiter reply)
      | .ok (s, c) => (Call.ask reply error s limit).poll c now

end Connection

end EnvelopeClient
