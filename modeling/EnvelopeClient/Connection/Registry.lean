import EnvelopeClient.Failure

/-!
# Who waits for which tag

A `Registry` holds the state of a connection and, for every event tag, the waiters of that tag in
the order they registered. A message goes to the oldest waiter of its tag alone; tags do not
affect each other. A tag nobody waits for has no queue at all.

State and queues change together, so no waiter can be registered behind the close that would have
failed it.
-/

namespace EnvelopeClient

/-- The life of a connection. Only an open one registers and sends; closed is final. -/
inductive Status where
  | unconnected
  | connecting
  | open
  | closed
  deriving DecidableEq, Repr

/-- The name of a state in messages. -/
def Status.name : Status → String
  | .unconnected => "Unconnected"
  | .connecting => "Connecting"
  | .open => "Open"
  | .closed => "Closed"

/-- The state of a connection and its queues of waiters, known by number. -/
structure Registry where
  status : Status
  /-- The number of the next waiter. -/
  nextId : Nat
  /-- The waiters of each tag, the oldest first; no queue is empty. -/
  queues : List (String × List Nat)

namespace Registry

/-- Before there is a transport. -/
def initial : Registry := ⟨.unconnected, 0, []⟩

/-- Moves on to another state, unless the connection is closed. -/
def setStatus (r : Registry) (status : Status) : Registry :=
  if r.status = .closed then r else { r with status }

/-- The waiters of a tag, the oldest first. -/
def queue (r : Registry) (event : String) : List Nat :=
  (r.queues.lookup event).getD []

/-- Number of waiters over all tags. -/
def pending (r : Registry) : Nat :=
  r.queues.foldr (fun (_, ids) n => ids.length + n) 0

/-- Replaces the queue of a tag; an empty one is taken out. -/
def setQueue (event : String) (ids : List Nat) :
    List (String × List Nat) → List (String × List Nat)
  | [] => if ids.isEmpty then [] else [(event, ids)]
  | (tag, queue) :: rest =>
    if tag = event then if ids.isEmpty then rest else (tag, ids) :: rest
    else (tag, queue) :: setQueue event ids rest

/-- Puts a new waiter behind the others of its tag. -/
def register (r : Registry) (event : String) : Except Failure (Nat × Registry) :=
  if r.status = .open then
    .ok (r.nextId, { r with
      nextId := r.nextId + 1
      queues := setQueue event (r.queue event ++ [r.nextId]) r.queues })
  else .error (.notConnected s!"cannot await '{event}' in state {r.status.name}")

/-- Takes one waiter out of its tag's queue. -/
def cancel (r : Registry) (event : String) (id : Nat) : Registry :=
  { r with queues := setQueue event ((r.queue event).filter (· ≠ id)) r.queues }

/-- Closes the connection and empties the queues; the answer lists the waiters to be failed. -/
def close (r : Registry) : List (String × Nat) × Registry :=
  (r.queues.flatMap fun (event, ids) => ids.map fun id => (event, id),
    { r with status := .closed, queues := [] })

end Registry

end EnvelopeClient
