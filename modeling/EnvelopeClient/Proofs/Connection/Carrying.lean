import EnvelopeClient.Proofs.Connection.Arrivals
import EnvelopeClient.Proofs.Connection.Writing

/-!
# A connection with traffic in both directions

`Connection.Carries` is what a client's connection carries while all is well: the messages of its
requests on their way out, as far as there is room, and documents on their way in. Peer, reader and
requests each have one lemma, which says what they do to it.
-/

namespace EnvelopeClient.Connection

open Json EnvelopeClient.Frame

/-- Messages of requests on their way out, and documents on their way in. -/
structure Carries (c : Connection) (messages : List Envelope) (read : List UInt8) (b : Backlog)
    (back : List Piece) (outgoing : List UInt8) : Prop extends c.Brings back outgoing where
  writes : c.Writes messages read b
  /-- Where there is room for everything, nothing is left to be written. -/
  room : c.outbound.capacity = none → b.rests = []

variable {c c' : Connection} {messages : List Envelope} {read : List UInt8} {b : Backlog}
  {back back' : List Piece} {outgoing outgoing' : List UInt8} {x : Exchange} {event : String}
  {reply : Nat} {error : Option Nat}

theorem carries_opened (peer : String) (capacity : Option Nat) :
    Carries (.opened peer capacity) [] [] .empty [] [] where
  toBrings := brings_opened peer capacity
  writes := writes_opened peer capacity
  room _ := rfl

namespace Carries

/-- What changes the documents on their way in is nothing to the messages on their way out. -/
theorem inward (h : c.Carries messages read b back outgoing) (hbrings : c'.Brings back' outgoing')
    (houtbound : c'.outbound = c.outbound) (hturns : c'.turns = c.turns)
    (hnext : c'.nextTurn = c.nextTurn) : c'.Carries messages read b back' outgoing' where
  toBrings := hbrings
  writes := h.writes.aside houtbound hturns hnext
  room := houtbound ▸ h.room

/-! ### What the peer does -/

theorem peerRead (h : c.Carries messages read b back outgoing) (count : Nat) :
    (c.peerRead count).Carries messages (read ++ c.outbound.unread.take count) b back
      outgoing where
  toBrings := h.toBrings.peerRead count
  writes := h.writes.peerRead count
  room := h.room

/-- The peer has one more document to write. -/
theorem more (h : c.Carries messages read b back outgoing) (p : Piece) :
    c.Carries messages read b (back ++ [p]) (outgoing ++ p.bytes) :=
  h.inward (h.toBrings.more p) rfl rfl rfl

theorem peerWrite (h : c.Carries messages read b back outgoing) (count : Nat) :
    (c.peerWrite (outgoing.take count)).Carries messages read b back (outgoing.drop count) :=
  h.inward (h.toBrings.peerWrite count) rfl rfl rfl

/-! ### What the reader does -/

/-- The reader takes bytes, or finds no whole document, or takes the first document. -/
theorem readerStep (h : c.Carries messages read b back outgoing)
    (hshort : ∀ p ∈ back.head?, p.bytes.length ≤ defaultLimit)
    (hstep : c.readerStep = some c') :
    (c'.Carries messages read b back outgoing ∧ c'.exchange = c.exchange ∧
      ∀ frame, c.reading? ≠ some (.frame frame)) ∨
    ∃ p left, back = p :: left ∧ c'.Carries messages read b left outgoing ∧
      c'.exchange = (c.dispatch p.frame).exchange ∧ c.reading? = some (.frame p.frame) := by
  obtain ⟨_, -, hreads⟩ := reads_readerStep hstep
  obtain ⟨houtbound, hturns, hnext⟩ := hreads.outbound
  rcases h.toBrings.readerStep hshort hstep with
    ⟨hbrings, hsame⟩ | ⟨p, left, rfl, hbrings, htaken⟩
  · exact .inl ⟨h.inward hbrings houtbound hturns hnext, hsame⟩
  · exact .inr ⟨p, left, rfl, h.inward hbrings houtbound hturns hnext, htaken⟩

/-! ### What requests do -/

/-- Requests that end do not concern the messages and the documents. -/
theorem aside (h : c.Carries messages read b back outgoing) (hopen : x.status = .open) :
    Carries { c with exchange := x } messages read b back outgoing :=
  h.inward (h.toBrings.aside _ _ hopen h.calm.outbound) rfl rfl rfl

/-- A request is sent behind all others. -/
theorem ask (h : c.Carries messages read b back outgoing) {e : Envelope}
    (henlists : Exchange.Enlists e.event c.exchange reply error x) {payload : Payload}
    (hpayload : payload.toValue = .ok e.data) (limit : Option Nat) (hlimit : ∀ ms ∈ limit, 0 < ms)
    (now : Nat) :
    ∃ c' b', c.ask now e.event payload limit =
        (.pending (b'.call messages.length e.event reply error limit (Call.deadlineFrom now limit)),
          c') ∧
      c'.Carries (messages ++ [e]) read b' back outgoing ∧ c'.exchange = x ∧
      ∀ m < messages.length, b'.rest? m = b.rest? m := by
  obtain ⟨b', outbound, turns, hask, hwrites, houtbound, hcapacity, hothers, hroom⟩ :=
    h.writes.ask h.calm henlists hpayload h.room limit hlimit now
  refine ⟨_, b', hask, ⟨h.toBrings.aside _ _ henlists.isOpen houtbound, hwrites, ?_⟩, rfl, hothers⟩
  intro hnone
  exact hroom (hcapacity.symm.trans hnone)

/-- A request that was sent is polled: it writes as far as there is room, and when its message is
written it is polled for its answer. -/
theorem poll (h : c.Carries messages read b back outgoing) (n : Nat) (event : String)
    (reply : Nat) (error limit : Option Nat) (deadline : Option Deadline) (now : Nat) :
    ∃ b' c' deadline', c.Forwards c' messages read b b' n ∧
      c'.Carries messages read b' back outgoing ∧ c'.exchange = c.exchange ∧
      (deadline' = deadline ∨ deadline' = Call.deadlineFrom now limit) ∧
      (b.call n event reply error limit deadline).poll c now =
        match b'.rest? n with
        | some left => (.pending (.ask reply error ⟨event, n, left⟩ limit), c')
        | none => Call.pollHear c' now event reply error deadline' := by
  obtain ⟨b', c', deadline', hforwards, hdeadline, hpoll⟩ :=
    h.writes.poll h.calm n event reply error limit deadline now
  obtain ⟨outbound, turns, rfl, houtbound, hcapacity⟩ := hforwards.same
  refine ⟨b', _, deadline', hforwards, ⟨?_, hforwards.writes, ?_⟩, rfl, hdeadline, hpoll⟩
  · exact h.toBrings.aside turns c.nextTurn h.calm.isOpen houtbound
  · intro hnone
    exact hforwards.rests_eq_nil (h.room (hcapacity.symm.trans hnone))

end Carries

end EnvelopeClient.Connection
