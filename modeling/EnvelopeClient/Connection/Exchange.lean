import EnvelopeClient.Connection.Registry
import EnvelopeClient.Envelope

/-!
# Waiters and what they were given

A waiter is a single-use claim on the next message of one tag. Each has a `Mailbox`, which takes
at most one outcome: the data of a message, or the failure of a close. The `Exchange` is the
registry together with the mailboxes of all waiters it ever registered, by number.

A waiter that is dropped before it has an outcome gives up its place in the queue; one that has
its outcome keeps it whatever happens later.
-/

namespace EnvelopeClient

open Json

/-- What a caller gets for a tag: the data, or why there is none. -/
abbrev Reply := Except Failure Value

/-- Where a waiter's outcome is put. -/
structure Mailbox where
  event : String
  /-- What the waiter was given. -/
  outcome : Option Reply
  /-- Whether the waiter is still there to receive. -/
  held : Bool

/-- The registry and the mailboxes of its waiters. -/
structure Exchange where
  registry : Registry
  /-- The mailbox of waiter `n` is the `n`th. -/
  mailboxes : List Mailbox

namespace Exchange

/-- Open, with nobody waiting. -/
def opened : Exchange := ⟨Registry.initial.setStatus .open, []⟩

/-- The state of the connection. -/
def status (x : Exchange) : Status := x.registry.status

/-- Number of waiters without an outcome. -/
def pending (x : Exchange) : Nat := x.registry.pending

/-- Whether a waiter is still there to receive. -/
def isHeld (x : Exchange) (id : Nat) : Bool :=
  (x.mailboxes[id]?).any (·.held)

/-- The tag a waiter waits for. -/
def eventOf (x : Exchange) (id : Nat) : String :=
  ((x.mailboxes[id]?).map (·.event)).getD ""

/-- What a waiter was given. -/
def outcome? (x : Exchange) (id : Nat) : Option Reply :=
  (x.mailboxes[id]?).bind (·.outcome)

/-- Registers a waiter. -/
def register (x : Exchange) (event : String) : Except Failure (Nat × Exchange) :=
  match x.registry.register event with
  | .ok (id, registry) => .ok (id, ⟨registry, x.mailboxes ++ [⟨event, none, true⟩]⟩)
  | .error failure => .error failure

/-- Gives a waiter its outcome. -/
def give (reply : Reply) (mailboxes : List Mailbox) (id : Nat) : List Mailbox :=
  mailboxes.modify id fun box => { box with outcome := some reply }

/-- Sends a waiter its outcome. If the waiter is no longer there, the outcome comes back. -/
def send (mailboxes : List Mailbox) (id : Nat) (reply : Reply) : Except Reply (List Mailbox) :=
  if (mailboxes[id]?).any (·.held) then .ok (give reply mailboxes id) else .error reply

/-- Sends data to the waiters of a queue, the oldest first, until it does not come back. The answer
has the data if it is left over, and the waiters it was not sent to. -/
def offer (mailboxes : List Mailbox) :
    Option Value → List Nat → Option Value × List Nat × List Mailbox
  | none, queue => (none, queue, mailboxes)
  | some data, [] => (some data, [], mailboxes)
  | some data, id :: rest =>
    match send mailboxes id (.ok data) with
    | .ok mailboxes => offer mailboxes none rest
    -- the waiter is gone, though nobody has taken it out of the queue; the next one is tried
    | .error returned => offer mailboxes returned.toOption rest

/-- Hands a message to the oldest waiter of its tag that is still there; older ones that are gone
leave the queue with it. Without a waiter the message is dropped. The answer says whether it was
handed over. -/
def deliver (x : Exchange) (e : Envelope) : Bool × Exchange :=
  match x.registry.queues.lookup e.event with
  | none => (false, x)
  | some queue =>
    let (left, rest, mailboxes) := offer x.mailboxes (some e.data) queue
    (left.isNone,
      ⟨{ x.registry with queues := Registry.setQueue e.event rest x.registry.queues }, mailboxes⟩)

/-- The failure of a waiter whose connection closed. -/
def closedFailure (event reason : String) : Failure :=
  .notConnected s!"connection closed before '{event}' reply: {reason}"

/-- The failure of a waiter whose connection went away without closing. -/
def droppedFailure (event : String) : Failure :=
  .notConnected s!"connection dropped before '{event}' reply"

/-- Closes the connection and fails everyone who waits. -/
def close (x : Exchange) (reason : String) : Exchange :=
  let (failed, registry) := x.registry.close
  ⟨registry, failed.foldl (fun boxes (event, id) =>
    give (.error (closedFailure event reason)) boxes id) x.mailboxes⟩

/-- A waiter that has taken its outcome is done. -/
def settle (x : Exchange) (id : Nat) : Exchange :=
  { x with mailboxes := x.mailboxes.modify id fun box => { box with held := false } }

/-- Drops a waiter, and its place in the queue if it has one. -/
def cancel (x : Exchange) (id : Nat) : Exchange :=
  { x.settle id with registry := x.registry.cancel (x.eventOf id) id }

end Exchange

end EnvelopeClient
