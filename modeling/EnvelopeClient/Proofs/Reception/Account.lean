import EnvelopeClient.Proofs.Connection.Turns
import EnvelopeClient.Proofs.Reception.System

/-!
# What a trace accounts for

Everything that becomes of the waiters and the notices of a connection is in its trace, whether the
reader does it (`Connection.Reads.account`) or anybody else (`Reception.aside_happen`), who leaves the
reader and its stream as they are.
-/

namespace EnvelopeClient

namespace Connection

variable {c c' : Connection} {r : Reading}

/-- A frame does to waiters and subscribers what its entry says. -/
theorem dispatch_eq (c : Connection) (f : Frame) :
    (c.dispatch f).exchange =
        (Trace.acts [.read (.frame f)]).foldl Exchange.act c.exchange ∧
      (c.dispatch f).notices =
        (Trace.announced [.read (.frame f)]).foldl Notices.send c.notices := by
  cases f <;> exact ⟨rfl, rfl⟩

/-- So does every step of the reader. -/
theorem Reads.account (h : Reads c r c') :
    c'.exchange = (Trace.acts [.read r]).foldl Exchange.act c.exchange ∧
      c'.notices = (Trace.announced [.read r]).foldl Notices.send c.notices := by
  cases h with
  | frame hreader hcancelled hdecode => exact dispatch_eq _ _
  | lastFrame hreader hcancelled hdecode => exact dispatch_eq _ _
  | stop _ _ | bytes _ _ _ | ended _ _ _ | failed _ _ _ | rest _ _ _ | finish _ _ _ =>
    exact ⟨rfl, rfl⟩

/-- A write closes the connection exactly if it finds the peer gone, and is otherwise a matter of the
write half. -/
theorem pollSend_eq (c : Connection) (s : Sending) :
    ∃ outbound turns, (c.pollSend s).2 = { c with
      exchange :=
        if (c.pollSend s).1.findsPeerGone then c.exchange.close peerWentAway else c.exchange
      outbound
      turns } := by
  have hsends := sends_pollSend c s
  generalize c.pollSend s = r at hsends
  cases hsends with
  | waits left outbound => exact ⟨outbound, c.turns, rfl⟩
  | sent outbound => exact ⟨outbound, c.turns.filter (· ≠ s.turn), rfl⟩
  | fails outbound fault =>
    refine ⟨outbound, c.turns.filter (· ≠ s.turn), ?_⟩
    unfold endWrite failWrite
    by_cases hgone : fault.toFailure.isNotConnected
    · simp only [SendPoll.findsPeerGone, hgone, if_true]
      rfl
    · simp only [SendPoll.findsPeerGone, hgone]
      rfl

/-- Whoever closes a connection tells the reader to stop. -/
theorem close_eq (c : Connection) (now : Nat) :
    ∃ outbound turns nextTurn, (c.close now).2 = { c with
      exchange := c.exchange.close closedLocally
      cancelled := true
      outbound
      turns
      nextTurn } := by
  unfold close Call.poll
  simp only
  split <;> exact ⟨_, _, _, rfl⟩

end Connection

namespace Reception

open Connection

/-- What users do is in the trace as far as it concerns the exchange, and is otherwise a matter of the
write half; only a close stops the reader. -/
structure Aside (c : Connection) (event : Event) : Prop where
  same : ∃ outbound turns nextTurn cancelled, happen c event = { c with
    exchange := (entries c event).acts.foldl Exchange.act c.exchange
    outbound
    turns
    nextTurn
    cancelled }
  cancelled : (happen c event).cancelled = true →
    c.cancelled = true ∨ ∃ entry ∈ entries c event, entry.isCause = true
  entries : (entries c event).OfUsers

theorem ofUsers_nil : Trace.OfUsers [] := fun _ h => absurd h List.not_mem_nil

theorem ofUsers_act {a : Exchange.Act} (ha : a.envelope? = none) : Trace.OfUsers [.act a] :=
  fun _ h => ⟨a, List.mem_singleton.mp h, ha⟩

variable (c : Connection)

theorem aside_register (event : String) : Aside c (.register event) := by
  have hsame : happen c (.register event) =
      { c with exchange := c.exchange.act (.register event) } := by
    rw [happen, Exchange.act, Connection.register]
    cases c.exchange.register event <;> rfl
  exact ⟨⟨_, _, _, _, hsame⟩, by rw [hsame]; exact .inl, ofUsers_act rfl⟩

theorem aside_drop (waiter : Nat) : Aside c (.drop waiter) :=
  ⟨⟨_, _, _, _, rfl⟩, .inl, ofUsers_act rfl⟩

theorem acts_map_act (acts : List Exchange.Act) : Trace.acts (acts.map .act) = acts := by
  rw [Trace.acts, List.filterMap_map]
  exact List.filterMap_some

theorem envelope?_of_receiveActs {now waiter : Nat} {deadline : Option Deadline} {a : Exchange.Act}
    (ha : a ∈ c.receiveActs now waiter deadline) : a.envelope? = none := by
  unfold receiveActs at ha
  split at ha
  · rw [List.mem_singleton.mp ha]
    rfl
  · split at ha
    · rw [List.mem_singleton.mp ha]
      rfl
    · cases ha

theorem aside_receive (now waiter : Nat) (deadline : Option Deadline) :
    Aside c (.receive now waiter deadline) := by
  have hsame : happen c (.receive now waiter deadline) = { c with
      exchange := (c.receiveActs now waiter deadline).foldl Exchange.act c.exchange } := by
    show (Call.pollReceive c now waiter deadline true).2 = _
    unfold Call.pollReceive receiveActs
    cases c.outcome? waiter with
    | some reply => rfl
    | none => cases Call.isPast deadline now <;> rfl
  have hacts : (entries c (.receive now waiter deadline)).acts =
      c.receiveActs now waiter deadline := acts_map_act _
  refine ⟨⟨c.outbound, c.turns, c.nextTurn, c.cancelled, ?_⟩, by rw [hsame]; exact .inl, ?_⟩
  · rw [hacts]
    exact hsame
  · intro entry hentry
    obtain ⟨a, ha, rfl⟩ := List.mem_map.mp hentry
    exact ⟨a, rfl, envelope?_of_receiveActs c ha⟩

theorem aside_queue (event : String) (payload : Payload) : Aside c (.queue event payload) := by
  have hsame : ∃ turns nextTurn, happen c (.queue event payload) = { c with turns, nextTurn } := by
    rw [happen]
    cases hbegin : c.beginSend event payload with
    | error failure => exact ⟨_, _, rfl⟩
    | ok r =>
      obtain ⟨s, c'⟩ := r
      obtain ⟨-, -, -, rfl⟩ := beginSend_cases hbegin
      exact ⟨_, _, rfl⟩
  obtain ⟨turns, nextTurn, hsame⟩ := hsame
  exact ⟨⟨_, _, _, _, hsame⟩, by rw [hsame]; exact .inl, ofUsers_nil⟩

theorem aside_send (s : Sending) : Aside c (.send s) := by
  obtain ⟨outbound, turns, hsame⟩ := pollSend_eq c s
  have hcancelled : (happen c (.send s)).cancelled = c.cancelled := by
    show (c.pollSend s).2.cancelled = c.cancelled
    rw [hsame]
  have hentries : entries c (.send s) =
      if (c.pollSend s).1.findsPeerGone then [.act (.close peerWentAway)] else [] := rfl
  refine ⟨⟨outbound, turns, c.nextTurn, c.cancelled, hsame.trans ?_⟩,
    fun h => .inl (hcancelled ▸ h), ?_⟩
  · rw [hentries]
    cases (c.pollSend s).1.findsPeerGone <;> rfl
  · rw [hentries]
    split
    · exact ofUsers_act rfl
    · exact ofUsers_nil

theorem aside_leave (turn : Nat) : Aside c (.leave turn) :=
  ⟨⟨_, _, _, _, rfl⟩, .inl, ofUsers_nil⟩

theorem aside_close (now : Nat) : Aside c (.close now) := by
  obtain ⟨outbound, turns, nextTurn, hsame⟩ := close_eq c now
  exact ⟨⟨outbound, turns, nextTurn, true, hsame⟩,
    fun _ => .inr ⟨.act (.close closedLocally), List.mem_singleton_self _, rfl⟩, ofUsers_act rfl⟩

/-- Whatever happens is done by users, and not by the peer, or happens without a caller. -/
theorem aside_happen (event : Event) :
    (Aside c event ∧ written event = []) ∨ ∃ what, event = .incident what := by
  cases event with
  | register event => exact .inl ⟨aside_register c event, rfl⟩
  | drop waiter => exact .inl ⟨aside_drop c waiter, rfl⟩
  | receive now waiter deadline => exact .inl ⟨aside_receive c now waiter deadline, rfl⟩
  | queue event payload => exact .inl ⟨aside_queue c event payload, rfl⟩
  | send s => exact .inl ⟨aside_send c s, rfl⟩
  | leave turn => exact .inl ⟨aside_leave c turn, rfl⟩
  | close now => exact .inl ⟨aside_close c now, rfl⟩
  | incident what => exact .inr ⟨what, rfl⟩

end Reception

end EnvelopeClient
