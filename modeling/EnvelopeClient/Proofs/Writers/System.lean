import EnvelopeClient.Proofs.Client.Runs
import EnvelopeClient.Proofs.Connection.Turns

/-!
# Callers that share a write half

`Writers` is a connection with the callers that want to write to it, in the order in which they came.
Callers come at any time, are polled in any order and are dropped wherever they stand; between their
polls the peer reads and writes, faults are laid, and the reader takes its steps. Of every caller it is
recorded which turn it asked for, whether it has had the write half and which bytes it has written;
what the peer has read is recorded as well, so that everything ever written can be told from who
wrote it.
-/

namespace EnvelopeClient

/-- What a caller wants that takes a turn at the write half. -/
inductive Errand where
  | send (event : String) (payload : Payload)
  | request (event : String) (payload : Payload)
  /-- The request of a client, and how long it may wait once it is sent. -/
  | ask (event : String) (payload : Payload) (limit : Option Nat)
  | close

namespace Errand

/-- The first poll of an errand. -/
def begin (errand : Errand) (c : Connection) (now : Nat) : Poll × Connection :=
  match errand with
  | .send event payload => c.send now event payload
  | .request event payload => c.request now event payload
  | .ask event payload limit => c.ask now event payload limit
  | .close => c.close now

/-- The message of an errand. -/
def text : Errand → List UInt8
  | .send event payload | .request event payload | .ask event payload _ =>
    Connection.textOf event payload
  | .close => []

end Errand

/-- What the connection has written since it was `c`, if nothing has been read. -/
def Connection.added (c c' : Connection) : List UInt8 :=
  c'.outbound.unread.drop c.outbound.unread.length

/-- A caller, and what has become of its errand. -/
structure Caller where
  errand : Errand
  /-- The turn it has asked for. -/
  turn : Option Nat
  /-- Whether it has had the write half. -/
  granted : Bool
  /-- What it has written. -/
  wrote : List UInt8
  /-- What its last poll came to, unless it has been dropped. -/
  poll : Option Poll

namespace Caller

/-- A caller whose first poll took `c` to `r`. -/
def begun (errand : Errand) (c : Connection) (r : Poll × Connection) : Caller where
  errand := errand
  turn := if r.2.nextTurn = c.nextTurn then none else some c.nextTurn
  granted := decide (r.2.nextTurn ≠ c.nextTurn) && c.turns.isEmpty
  wrote := c.added r.2
  poll := some r.1

/-- A caller is polled, which takes `c` to `r`. -/
def polled (caller : Caller) (c : Connection) (r : Poll × Connection) : Caller :=
  { caller with
    granted := caller.granted || caller.turn.any c.hasTurn
    wrote := caller.wrote ++ c.added r.2
    poll := some r.1 }

/-- A caller goes away. -/
def dropped (caller : Caller) : Caller := { caller with poll := none }

/-- The call a caller has not finished. -/
def call? (caller : Caller) : Option Call :=
  match caller.poll with
  | some (.pending call) => some call
  | _ => none

/-- Whether a caller has got what it wanted. -/
def succeeded (caller : Caller) : Bool :=
  match caller.poll with
  | some (.finished outcome) => outcome.isOk
  | _ => false

theorem call?_eq_some {caller : Caller} {call : Call} :
    caller.call? = some call ↔ caller.poll = some (.pending call) := by
  unfold call?
  split
  · next heq => simp [heq]
  · next hne =>
    constructor
    · intro h
      cases h
    · intro h
      exact absurd h (hne call)

theorem succeeded_iff {caller : Caller} : caller.succeeded = true ↔
    ∃ outcome, caller.poll = some (.finished outcome) ∧ outcome.isOk = true := by
  unfold succeeded
  split
  · next heq => simp [heq]
  · next hne =>
    constructor
    · intro h
      cases h
    · intro ⟨outcome, h, _⟩
      exact absurd h (hne outcome)

end Caller

/-- A connection and those who have wanted to write to it. -/
structure Writers where
  connection : Connection
  /-- The callers, the first to come first. -/
  callers : List Caller
  /-- What the peer has read. -/
  read : List UInt8

namespace Writers

/-- One thing that happens. -/
inductive Event where
  | begin (now : Nat) (errand : Errand)
  | poll (now : Nat) (caller : Nat)
  | drop (caller : Nat)
  | incident (what : Connection.Incident)

/-- A fresh connection, and nobody there. -/
def start (peer : String) (capacity : Option Nat) : Writers := ⟨.opened peer capacity, [], []⟩

/-- What a peer reads at an incident. -/
def readAt (c : Connection) : Connection.Incident → List UInt8
  | .peerReads count => c.outbound.unread.take count
  | _ => []

/-- What happens at an event. Only callers that have not finished are polled or dropped. -/
def step (w : Writers) : Event → Writers
  | .begin now errand =>
    let r := errand.begin w.connection now
    { w with
      connection := r.2
      callers := w.callers ++ [.begun errand w.connection r] }
  | .poll now i =>
    match w.callers[i]? with
    | none => w
    | some caller =>
      match caller.call? with
      | none => w
      | some call =>
        let r := call.poll w.connection now
        { w with
          connection := r.2
          callers := w.callers.set i (caller.polled w.connection r) }
  | .drop i =>
    match w.callers[i]? with
    | none => w
    | some caller =>
      match caller.call? with
      | none => w
      | some call =>
        { w with
          connection := call.drop w.connection
          callers := w.callers.set i caller.dropped }
  | .incident what =>
    { w with
      connection := w.connection.befall what
      read := w.read ++ readAt w.connection what }

theorem step_poll {w : Writers} {caller : Caller} {call : Call} {i : Nat}
    (hi : w.callers[i]? = some caller) (hcall : caller.call? = some call) (now : Nat) :
    w.step (.poll now i) = { w with
      connection := (call.poll w.connection now).2
      callers := w.callers.set i (caller.polled w.connection (call.poll w.connection now)) } := by
  simp only [step, hi, hcall]

/-- A poll does something only if there is a call to poll. -/
theorem step_poll_cases (w : Writers) (now i : Nat) : w.step (.poll now i) = w ∨
    ∃ caller call, w.callers[i]? = some caller ∧ caller.call? = some call ∧
      w.step (.poll now i) = { w with
        connection := (call.poll w.connection now).2
        callers := w.callers.set i (caller.polled w.connection (call.poll w.connection now)) } := by
  cases hi : w.callers[i]? with
  | none => exact .inl (by simp only [step, hi])
  | some caller =>
    cases hcall : caller.call? with
    | none => exact .inl (by simp only [step, hi, hcall])
    | some call => exact .inr ⟨caller, call, rfl, hcall, step_poll hi hcall now⟩

/-- So does a drop. -/
theorem step_drop_cases (w : Writers) (i : Nat) : w.step (.drop i) = w ∨
    ∃ caller call, w.callers[i]? = some caller ∧ caller.call? = some call ∧
      w.step (.drop i) = { w with
        connection := call.drop w.connection
        callers := w.callers.set i caller.dropped } := by
  cases hi : w.callers[i]? with
  | none => exact .inl (by simp only [step, hi])
  | some caller =>
    cases hcall : caller.call? with
    | none => exact .inl (by simp only [step, hi, hcall])
    | some call => exact .inr ⟨caller, call, rfl, hcall, by simp only [step, hi, hcall]⟩

/-- The state behind events. -/
def run (w : Writers) (events : List Event) : Writers := events.foldl step w

/-- Everything that has been written. -/
def written (w : Writers) : List UInt8 := w.read ++ w.connection.outbound.unread

/-- Whether a caller has the write half, or has had it. -/
def hasObtained (w : Writers) (caller : Caller) : Bool :=
  caller.granted || caller.turn.any w.connection.hasTurn

end Writers

end EnvelopeClient
