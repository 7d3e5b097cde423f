import EnvelopeClient.Proofs.Reception.System

/-!
# A client's request among everybody else

An `Inquiry` is one request of a client on a connection where everything else goes on: the reader
takes its steps, other callers register, send, hang up and close, and the peer does what it likes.

A poll of the request is not one moment. It writes, looks for the reply, then for an error message,
and, if it is told that the connection closed, for the reply again. Others may go on between two of
these looks, and a close that is under way has failed some waiters and others not yet (`Looks`).
`Call.pollOver` is such a poll; if nothing happens in between it is `Call.poll`
(`Call.pollOver_atOnce`).
-/

namespace EnvelopeClient

/-! ### Polls with something in between -/

/-- What happens during one poll of a request. -/
structure Looks where
  /-- What others do between the write and the first look for the reply. -/
  beforeReply : List Reception.Event
  /-- Whether a close is under way that has not come to the reply's waiter. -/
  replyLate : Bool
  /-- What others do before the look for an error message. -/
  beforeError : List Reception.Event
  errorLate : Bool
  /-- What others do before the second look for the reply. -/
  beforeAgain : List Reception.Event
  againLate : Bool

/-- Nothing happens during the poll. -/
def Looks.atOnce : Looks := ⟨[], false, [], false, [], false⟩

/-- All that others do during a poll. -/
def Looks.events (looks : Looks) : List Reception.Event :=
  looks.beforeReply ++ looks.beforeError ++ looks.beforeAgain

namespace Connection

/-- The connection behind what others do. -/
def happened (c : Connection) (events : List Reception.Event) : Connection :=
  events.foldl Reception.happen c

/-- What a look at a waiter finds. The failure of a close may not have come to it yet. -/
def seen? (c : Connection) (late : Bool) (waiter : Nat) : Option Reply :=
  match c.outcome? waiter with
  | some (.error failure) => if late then none else some (.error failure)
  | found => found

/-- A waiter there may be has taken its outcome. -/
def settleWaiter? (c : Connection) : Option Nat → Connection
  | none => c
  | some id => c.settleWaiter id

end Connection

namespace Call

/-- A request without an answer goes on waiting, unless its time is up. -/
def waitOn (c : Connection) (now : Nat) (event : String) (reply : Nat) (error : Option Nat)
    (deadline : Option Deadline) : Poll × Connection :=
  match isPast deadline now with
  | some d => (.failed (Deadline.failure event d.limit), (c.dropWaiter? error).dropWaiter reply)
  | none => (.pending (.hear event reply error deadline), c)

/-- Looks for an answer. Once the waiter for error messages was told that the connection closed, it
is left, and what the reply's waiter is told is waited for. -/
def hearOver (c : Connection) (now : Nat) (event : String) (reply : Nat) (error : Option Nat)
    (deadline : Option Deadline) (looks : Looks) : Poll × Connection :=
  let reply? := c.seen? looks.replyLate reply
  let c := c.happened looks.beforeError
  let error? := error.bind (c.seen? looks.errorLate)
  match verdict? reply? error? with
  | some answer => (.finished (.reply answer), (c.dropWaiter? error).dropWaiter reply)
  | none =>
    if error?.isSome then
      let c := (c.settleWaiter? error).happened looks.beforeAgain
      match c.seen? looks.againLate reply with
      | some answer => (.finished (.reply answer), c.dropWaiter reply)
      | none => waitOn c now event reply none deadline
    else waitOn c now event reply error deadline

/-- Polls a client's request while others go on. -/
def pollOver (call : Call) (c : Connection) (now : Nat) (looks : Looks) : Poll × Connection :=
  match call with
  | .ask reply error s limit =>
    match c.pollSend s with
    | (.pending s, c) => (.pending (.ask reply error s limit), c)
    | (.finished (.ok ()), c) =>
      hearOver (c.happened looks.beforeReply) now s.event reply error (deadlineFrom now limit) looks
    | (.finished (.error failure), c) => (.failed failure, (c.dropWaiter? error).dropWaiter reply)
  | .hear event reply error deadline => hearOver c now event reply error deadline looks
  | call => call.poll c now

/-- Whether a poll finds a request sent, or writes the last of it. -/
def getsSent (call : Call) (c : Connection) : Bool :=
  match call with
  | .hear _ _ _ _ => true
  | .ask _ _ s _ =>
    match (c.pollSend s).1 with
    | .finished (.ok ()) => true
    | _ => false
  | _ => false

variable {c : Connection} {now : Nat} {reply : Nat} {error : Option Nat}

/-- Nobody is told of a close alone. -/
def FailTogether (c : Connection) (reply : Nat) (error : Option Nat) : Prop :=
  ∀ id ∈ error, ∀ failure, c.outcome? id = some (.error failure) → c.outcome? reply ≠ none

theorem seen?_atOnce (c : Connection) (waiter : Nat) : c.seen? false waiter = c.outcome? waiter := by
  rw [Connection.seen?]
  split
  · next h => exact h.symm
  · rfl

/-- With nothing in between, and everybody told of a close at once, looking for an answer is
polling for it. -/
theorem hearOver_atOnce (h : FailTogether c reply error) (event : String)
    (deadline : Option Deadline) :
    hearOver c now event reply error deadline .atOnce =
      pollHear c now event reply error deadline := by
  have hseen : c.seen? false = c.outcome? := funext (seen?_atOnce c)
  have hsame : c.happened [] = c := rfl
  simp only [hearOver, Looks.atOnce, hsame, hseen, pollHear]
  cases hverdict : verdict? (c.outcome? reply) (error.bind c.outcome?) with
  | some answer => rfl
  | none =>
    obtain ⟨hreply, hdata⟩ := verdict?_eq_none hverdict
    have hnone : error.bind c.outcome? = none := by
      cases error with
      | none => rfl
      | some id =>
        cases hgiven : c.outcome? id with
        | none => exact hgiven
        | some r =>
          cases r with
          | ok data => exact absurd hgiven (hdata data)
          | error failure => exact absurd hreply (h id rfl failure hgiven)
    simp only [hnone, Option.isSome_none, Bool.false_eq_true, if_false]
    rfl

end Call

/-! ### Runs -/

/-- A client's request and its connection. -/
structure Inquiry where
  connection : Connection
  /-- What polling the request has come to. -/
  poll : Poll
  /-- Whether all of it has been written. -/
  sent : Bool

/-- Which waiter an event lets go of. -/
def Reception.Event.lets : Reception.Event → List Nat
  | .drop waiter | .receive _ waiter _ => [waiter]
  | _ => []

namespace Inquiry

/-- A request begins: its waiters are registered, and it queues for the write half. Others go on in
between. -/
inductive Begins (event : String) (payload : Payload) (limit : Option Nat) (reply error : Nat)
    (c : Connection) : List Reception.Event → Inquiry → Prop where
  | mk {registered listening c' : Connection} {first second : List Reception.Event} {s : Sending}
      (hreply : c.register event = .ok (reply, registered))
      (herror : (registered.happened first).registerError event = .ok (some error, listening))
      (hsend : (listening.happened second).beginSend event payload = .ok (s, c')) :
      Begins event payload limit reply error c (first ++ second)
        ⟨c', .pending (.ask reply (some error) s limit), false⟩

/-- One thing that happens. -/
inductive Move where
  /-- Others do something. -/
  | event (what : Reception.Event)
  /-- The request is polled. -/
  | poll (now : Nat) (looks : Looks)

/-- What others do in a move. -/
def Move.events : Move → List Reception.Event
  | .event what => [what]
  | .poll _ looks => looks.events

/-- What a move does. -/
def step (s : Inquiry) : Move → Inquiry
  | .event what => { s with connection := Reception.happen s.connection what }
  | .poll now looks =>
    match s.poll with
    | .finished _ => s
    | .pending call =>
      let (poll, connection) := call.pollOver s.connection now looks
      ⟨connection, poll, s.sent || call.getsSent s.connection⟩

theorem step_poll {s : Inquiry} {call : Call} (h : s.poll = .pending call) (now : Nat)
    (looks : Looks) :
    s.step (.poll now looks) = ⟨(call.pollOver s.connection now looks).2,
      (call.pollOver s.connection now looks).1, s.sent || call.getsSent s.connection⟩ := by
  rw [step, h]

/-- A request that has ended is not polled again. -/
theorem step_poll_of_finished {s : Inquiry} {outcome : Outcome} (h : s.poll = .finished outcome)
    (now : Nat) (looks : Looks) : s.step (.poll now looks) = s := by
  simp only [step, h]

/-- The state behind moves. -/
def run (s : Inquiry) (moves : List Move) : Inquiry := moves.foldl step s

/-- A request that listens for error messages is for another tag. -/
theorem register_of_registerError {c c' : Connection} {event : String} {error : Nat}
    (h : c.registerError event = .ok (some error, c')) :
    event ≠ Envelope.errorEvent ∧ c.register Envelope.errorEvent = .ok (error, c') := by
  rw [Connection.registerError] at h
  split at h
  · cases h
  · next hevent =>
    refine ⟨hevent, ?_⟩
    cases hregister : c.register Envelope.errorEvent with
    | ok r =>
      rw [hregister] at h
      cases h
      rfl
    | error failure =>
      rw [hregister] at h
      cases h

section

variable {event : String} {payload : Payload} {limit : Option Nat} {reply error : Nat}
  {c : Connection} {s : Inquiry} (h : Begins event payload limit reply error c [] s)

include h

/-- A request begins at once if nobody goes on in between. -/
theorem Begins.cases_nil :
    ∃ registered listening c' sending, c.register event = .ok (reply, registered) ∧
      registered.registerError event = .ok (some error, listening) ∧
      listening.beginSend event payload = .ok (sending, c') ∧
      s = ⟨c', .pending (.ask reply (some error) sending limit), false⟩ := by
  generalize hnone : ([] : List Reception.Event) = events at h
  obtain ⟨hreply, herror, hsend⟩ := h
  obtain ⟨rfl, rfl⟩ := List.append_eq_nil_iff.mp hnone.symm
  exact ⟨_, _, _, _, hreply, herror, hsend, rfl⟩

/-- It is polled for the first time then. -/
theorem Begins.ask (now : Nat) : ∃ call, s.poll = .pending call ∧
    c.ask now event payload limit = call.poll s.connection now := by
  obtain ⟨registered, listening, c', sending, hreply, herror, hsend, rfl⟩ := h.cases_nil
  refine ⟨_, rfl, ?_⟩
  rw [Connection.ask, hreply]
  simp only [herror, hsend]

end

/-- A request on a fresh connection. -/
def fresh : Inquiry where
  connection :=
    { Connection.opened "peer" none with
      exchange := (Exchange.opened.act (.register "a")).act (.register Envelope.errorEvent)
      turns := [0]
      nextTurn := 1 }
  poll := .pending (.ask 0 (some 1) ⟨"a", 0, (Envelope.mk "a" (.int 1)).toBytes⟩ (some 5))
  sent := false

theorem begins_fresh : Begins "a" (.int 1) (some 5) 0 1 (.opened "peer" none) ([] ++ []) fresh :=
  .mk rfl rfl rfl

end Inquiry

end EnvelopeClient
