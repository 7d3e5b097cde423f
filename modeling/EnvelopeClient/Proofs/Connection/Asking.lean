import EnvelopeClient.Config.Basic
import EnvelopeClient.Proofs.Connection.Accounts
import EnvelopeClient.Proofs.Connection.Transport
import EnvelopeClient.Proofs.Frame.Message

/-!
# A client's request on an open connection

Such a request registers its waiters (`Exchange.exists_enlists`) and comes in line to be written
(`Connection.ask_of_sendable`), unless its payload cannot be sent (`Connection.ask_of_unsendable`).
What polling it for its answer comes to is said by `Connection.pollHear_cases`.
-/

namespace EnvelopeClient

open Json

/-- A limit is not zero. -/
theorem Timeouts.request?_pos {t : Timeouts} : ∀ ms ∈ t.request?, 0 < ms := by
  intro ms hms
  rw [request?, limit?] at hms
  split at hms
  · next hpos =>
    cases hms
    exact hpos
  · cases hms

namespace Exchange

variable {x y : Exchange} {event : String} {reply : Nat} {error : Option Nat}

/-- One more waiter, behind all others. -/
structure Extends (event : String) (x y : Exchange) : Prop where
  register : x.register event = .ok (x.mailboxes.length, y)
  sound : y.Sound
  isOpen : y.status = .open
  length : y.mailboxes.length = x.mailboxes.length + 1
  eventOf : ∀ id, y.eventOf id = if id = x.mailboxes.length then event else x.eventOf id
  outcome? : ∀ id, y.outcome? id = x.outcome? id

theorem exists_extends (hsound : x.Sound) (hopen : x.status = .open) (event : String) :
    ∃ y, Extends event x y := by
  have hregister := register_of_open hsound hopen event
  exact ⟨_, hregister, hsound.register hregister, hopen, length_register hsound hregister,
    eventOf_extended _ _, outcome?_extended _ _⟩

/-- One waiter is for the messages of a tag, and the other, if there is one, is not. -/
structure Listens (x : Exchange) (event : String) (reply : Nat) (error : Option Nat) : Prop where
  reply : x.eventOf reply = event
  error : ∀ id ∈ error, x.eventOf id ≠ event

/-- The waiters of a client's request are registered. -/
structure Enlists (event : String) (x : Exchange) (reply : Nat) (error : Option Nat) (y : Exchange) :
    Prop where
  isOpen : y.status = .open
  listens : y.Listens event reply error
  outcome? : ∀ id ∈ reply :: error.toList, y.outcome? id = none
  registers : ∀ c : Connection, c.exchange = x → ∃ z,
    c.register event = .ok (reply, { c with exchange := z }) ∧
      Connection.registerError { c with exchange := z } event = .ok (error, { c with exchange := y })

theorem Extends.registers (h : Extends event x y) {c : Connection} (hc : c.exchange = x) :
    c.register event = .ok (x.mailboxes.length, { c with exchange := y }) := by
  rw [Connection.register, hc, h.register]

/-- A request that does not ask for error messages listens for one behind its reply. -/
theorem enlists_of_extends {z : Exchange} (hevent : event ≠ Envelope.errorEvent)
    (hz : Extends event x z) (hy : Extends Envelope.errorEvent z y) :
    Enlists event x x.mailboxes.length (some z.mailboxes.length) y := by
  have hlength := hz.length
  refine ⟨hy.isOpen, ⟨?_, ?_⟩, ?_, ?_⟩
  · rw [hy.eventOf, if_neg (by omega), hz.eventOf, if_pos rfl]
  · rintro id ⟨⟩
    rw [hy.eventOf, if_pos rfl]
    exact hevent.symm
  · intro id hid
    rw [hy.outcome?, hz.outcome?]
    refine outcome?_of_length_le ?_
    rcases List.mem_cons.mp hid with rfl | hid
    · exact Nat.le_refl _
    · obtain rfl : id = z.mailboxes.length := by simpa using hid
      omega
  · intro c hc
    refine ⟨z, hz.registers hc, ?_⟩
    rw [Connection.registerError, if_neg hevent, hy.registers rfl]

theorem exists_enlists (hsound : x.Sound) (hopen : x.status = .open) (event : String) :
    ∃ reply error y, Enlists event x reply error y := by
  obtain ⟨z, hz⟩ := exists_extends hsound hopen event
  by_cases hevent : event = Envelope.errorEvent
  · -- it asks for error messages
    refine ⟨x.mailboxes.length, none, z, hz.isOpen, ⟨?_, by simp⟩, ?_, ?_⟩
    · rw [hz.eventOf, if_pos rfl]
    · intro id hid
      obtain rfl : id = x.mailboxes.length := by simpa using hid
      exact (hz.outcome? _).trans (outcome?_of_length_le (Nat.le_refl _))
    · intro c hc
      exact ⟨z, hz.registers hc, by rw [Connection.registerError, if_pos hevent]⟩
  · obtain ⟨y, hy⟩ := exists_extends hz.sound hz.isOpen Envelope.errorEvent
    exact ⟨_, _, y, enlists_of_extends hevent hz hy⟩

theorem Listens.deliver (h : x.Listens event reply error) (hsound : x.Sound) (e : Envelope) :
    (x.deliver e).2.Listens event reply error where
  reply := (eventOf_deliver hsound e reply).trans h.reply
  error id hid := by
    rw [eventOf_deliver hsound]
    exact h.error id hid

/-- If nobody else waits, the waiter for the reply is given the first message of its tag. -/
theorem Listens.outcome?_deliver (h : x.Listens event reply error)
    (haccounts : Accounts (reply :: error.toList) x) (e : Envelope) :
    (x.deliver e).2.outcome? reply =
      (x.outcome? reply).or (if e.event = event then some (.ok e.data) else none) := by
  have hsound := haccounts.sound
  have hdelivers := Exchange.outcome?_deliver hsound e reply
  cases hreply : x.outcome? reply with
  | some given =>
    -- it keeps what it was given
    rcases hdelivers with hsame | ⟨hwaiting, -⟩
    · exact hsame.trans hreply
    · cases (haccounts.isWaiting_iff.mp hwaiting).2.symm.trans hreply
  | none =>
    rw [Option.none_or]
    by_cases htag : e.event = event
    · have hwaiting : x.isWaiting reply = true :=
        haccounts.isWaiting_iff.mpr ⟨List.mem_cons_self, hreply⟩
      -- nobody else waits for the tag
      have hsame : ∀ other ∈ x.waitingFor e.event, reply ≤ other := by
        intro other hother
        obtain ⟨hwaits, hevent⟩ := mem_waitingFor.mp hother
        rcases List.mem_cons.mp (haccounts.covers other hwaits) with rfl | hmem
        · exact Nat.le_refl _
        · exact absurd (hevent.trans htag) (h.error other (by simpa using hmem))
      obtain ⟨rest, hq⟩ := waitingFor_eq_cons
        (mem_waitingFor.mpr ⟨hwaiting, h.reply.trans htag.symm⟩) hsame
      rw [if_pos htag, deliver_of_cons hsound hq, outcome?_withMailbox, if_pos rfl,
        List.getElem?_eq_getElem (lt_of_isWaiting hwaiting)]
      rfl
    · rw [if_neg htag]
      rcases hdelivers with hsame | ⟨-, hevent, -⟩
      · exact hsame.trans hreply
      · exact absurd (hevent.symm.trans h.reply) htag

end Exchange

namespace Connection

open Exchange

variable {c : Connection} {x : Exchange} {event : String} {reply : Nat} {error : Option Nat}
  {payload : Payload}

section

variable (henlists : Enlists event c.exchange reply error x)

include henlists

/-- A request whose payload cannot be sent fails, and drops its waiters. -/
theorem ask_of_unsendable {fault : PayloadFault} (hpayload : payload.toValue = .error fault)
    (now : Nat) (limit : Option Nat) :
    c.ask now event payload limit =
      (.failed (.protocol s!"failed to serialize '{event}' payload: {fault.message}"),
        (dropWaiter? { c with exchange := x } error).dropWaiter reply) := by
  obtain ⟨z, hreply, herror⟩ := henlists.registers c rfl
  rw [ask, hreply]
  simp only [herror, beginSend, hpayload]

/-- Any other comes in line for the write half, and is polled as one that is sent. -/
theorem ask_of_sendable {data : Value} (hpayload : payload.toValue = .ok data) (now : Nat)
    (limit : Option Nat) :
    c.ask now event payload limit =
      (Call.ask reply error ⟨event, c.nextTurn, (Envelope.mk event data).toBytes⟩ limit).poll
        { c with
          exchange := x
          turns := c.turns ++ [c.nextTurn]
          nextTurn := c.nextTurn + 1 } now := by
  obtain ⟨z, hreply, herror⟩ := henlists.registers c rfl
  have hbegin : beginSend { c with exchange := x } event payload =
      .ok (⟨event, c.nextTurn, (Envelope.mk event data).toBytes⟩,
        { c with
          exchange := x
          turns := c.turns ++ [c.nextTurn]
          nextTurn := c.nextTurn + 1 }) := by
    rw [beginSend, hpayload]
    exact if_pos henlists.isOpen
  rw [ask, hreply]
  simp only [herror, hbegin]

end

/-! ### Waiting for the answer -/

/-- Dropping the waiters of a request concerns the exchange only, and does not close it. -/
theorem dropWaiters_eq (c : Connection) (error : Option Nat) (reply : Nat) :
    ∃ y : Exchange, (c.dropWaiter? error).dropWaiter reply = { c with exchange := y } ∧
      y.status = c.status := by
  have hkeeps := (changes_dropWaiters c error reply).exchange.keeps
  cases error <;> exact ⟨_, rfl, hkeeps.status⟩

/-- A request that has a reply ends with it, whatever else it was given. -/
theorem verdict?_ok {reply error : Option Reply} {v : Value}
    (h : Call.verdict? reply error = some (.ok v)) : reply = some (.ok v) := by
  unfold Call.verdict? at h
  split at h
  · cases h
  · exact h
  · cases h
  · cases h

/-- Polling a request for its answer leaves it waiting, or ends it and drops its waiters. If it ends
with data, that is what the waiter for the reply was given. -/
theorem pollHear_cases (hgone : c.isGone = false) (now : Nat) (event : String) (reply : Nat)
    (error : Option Nat) (deadline : Option Deadline) :
    Call.pollHear c now event reply error deadline =
        (.pending (.hear event reply error deadline), c) ∨
      ∃ answer, Call.pollHear c now event reply error deadline =
          (.finished (.reply answer), (c.dropWaiter? error).dropWaiter reply) ∧
        ∀ v, answer = .ok v → c.exchange.outcome? reply = some (.ok v) := by
  rw [Call.pollHear]
  cases hanswer : Call.verdict? (c.outcome? reply) (error.bind c.outcome?) with
  | some answer =>
    refine .inr ⟨answer, rfl, ?_⟩
    rintro v rfl
    rw [← outcome?_of_not_gone hgone]
    exact verdict?_ok hanswer
  | none =>
    cases Call.isPast deadline now with
    | none => exact .inl rfl
    | some d => exact .inr ⟨_, rfl, fun v heq => by cases heq⟩

/-- A request that has just been sent waits. -/
theorem pollHear_of_new (hgone : c.isGone = false)
    (hnone : ∀ id ∈ reply :: error.toList, c.exchange.outcome? id = none) {limit : Option Nat}
    (hlimit : ∀ ms ∈ limit, 0 < ms) (now : Nat) :
    Call.pollHear c now event reply error (Call.deadlineFrom now limit) =
      (.pending (.hear event reply error (Call.deadlineFrom now limit)), c) := by
  have hpast : Call.isPast (Call.deadlineFrom now limit) now = none := by
    cases limit with
    | none => rfl
    | some ms => simpa [Call.isPast, Call.deadlineFrom] using hlimit ms rfl
  have hreply : c.outcome? reply = none :=
    (outcome?_of_not_gone hgone reply).trans (hnone reply List.mem_cons_self)
  have herror : error.bind c.outcome? = none := by
    cases error with
    | none => rfl
    | some id => exact (outcome?_of_not_gone hgone id).trans (hnone id (by simp))
  rw [Call.pollHear, hreply, herror, hpast]
  rfl

end Connection

end EnvelopeClient
