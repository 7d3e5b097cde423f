import EnvelopeClient.Connection.Call
import EnvelopeClient.Proofs.Connection.Evolution

/-!
# What calls do to a connection

Each operation on a connection is told by how it changes the exchange (`Connection.Changes`).
`polls_poll` is the case of a call that is polled: the only close it can cause is that of a write
that finds the peer gone, it lets go of no waiter but its own, and of none at all while it is
pending. `begins_request` and its like are the same for the first poll of a call, whose waiters are
new.
-/

namespace EnvelopeClient

/-- The waiters a call holds. -/
def Call.waiters : Call → List Nat
  | .receive waiter _ _ => [waiter]
  | .send _ => []
  | .request waiter _ => [waiter]
  | .close _ => []
  | .ask reply error _ _ => reply :: error.toList
  | .hear _ reply error _ => reply :: error.toList

/-- How many waiters a client's request for a tag holds: it also listens for an error message,
unless that is what it asks for. -/
def slotsFor (event : String) : Nat := if event = Envelope.errorEvent then 1 else 2

/-- How many waiters a call holds while it goes on. -/
def Call.slots : Call → Nat
  | .receive _ _ _ | .request _ _ => 1
  | .send _ | .close _ => 0
  | .ask _ _ s _ => slotsFor s.event
  | .hear event _ _ _ => slotsFor event

namespace Call

/-- What may be left of a call that is polled at some time and goes on: the same wait, the rest of
the same message, or the wait that follows a message. -/
inductive GoesOn (now : Nat) : Call → Call → Prop where
  | waits (call : Call) : GoesOn now call call
  | sends {s s' : Sending} : GoesOn now (.send s) (.send s')
  | requests {waiter : Nat} {s s' : Sending} : GoesOn now (.request waiter s) (.request waiter s')
  | receives {waiter : Nat} {s : Sending} :
      GoesOn now (.request waiter s) (.receive waiter none true)
  | asks {reply : Nat} {error : Option Nat} {s s' : Sending} {limit : Option Nat}
      (hevent : s'.event = s.event) :
      GoesOn now (.ask reply error s limit) (.ask reply error s' limit)
  | hears {reply : Nat} {error : Option Nat} {s : Sending} {limit : Option Nat} :
      GoesOn now (.ask reply error s limit) (.hear s.event reply error (deadlineFrom now limit))

/-- A call that goes on holds as many waiters as before. -/
theorem GoesOn.slots {now : Nat} {call call' : Call} (h : call.GoesOn now call') :
    call'.slots = call.slots := by
  cases h with
  | asks hevent => rw [Call.slots, Call.slots, hevent]
  | _ => rfl

/-- There is no verdict as long as there is neither a reply nor an error message. -/
theorem verdict?_eq_none {reply error : Option Reply} (h : verdict? reply error = none) :
    reply = none ∧ ∀ data, error ≠ some (.ok data) := by
  rcases reply with _ | ⟨_ | _⟩ <;> rcases error with _ | ⟨_ | _⟩ <;> simp [verdict?] at h ⊢

/-- A verdict is an error message, or the reply, which is a failure only if there is no error
message. -/
theorem verdict?_eq_some {reply error : Option Reply} {r : Reply}
    (h : verdict? reply error = some r) :
    (∃ data, error = some (.ok data) ∧ r = .error (.remote (remoteMessage data))) ∨
      reply = some r ∧ ∀ failure, r = .error failure → ∀ data, error ≠ some (.ok data) := by
  rcases reply with _ | ⟨_ | _⟩ <;> rcases error with _ | ⟨_ | _⟩ <;> simp [verdict?] at h <;>
    subst h <;> simp

end Call

namespace Connection

open Exchange

/-- The exchange of a connection changes as `P` says; its reader runs as before, and it is no more
and no less released. -/
structure Changes (P : Exchange → Exchange → Prop) (c c' : Connection) : Prop where
  exchange : P c.exchange c'.exchange
  released : c'.released = c.released
  reader : c'.reader = c.reader

variable {P Q R : Exchange → Exchange → Prop} {c c' c'' : Connection} {ids : List Nat}
  {reason : String}

theorem Changes.trans (h : Changes P c c') (h' : Changes Q c' c'')
    (hPQ : ∀ {x y z}, P x y → Q y z → R x z) : Changes R c c'' :=
  ⟨hPQ h.exchange h'.exchange, h'.released.trans h.released, h'.reader.trans h.reader⟩

theorem Changes.imp (hPQ : ∀ {x y}, P x y → Q x y) (h : Changes P c c') : Changes Q c c' :=
  ⟨hPQ h.exchange, h.released, h.reader⟩

theorem Changes.isGone (h : Changes P c c') : c'.isGone = c.isGone := by
  rw [Connection.isGone, Connection.isGone, isReading, isReading, h.released, h.reader]

/-! ### Letting go -/

theorem changes_dropWaiter {id : Nat} (hid : id ∈ ids) :
    Changes (LetsGo ids) c (c.dropWaiter id) :=
  ⟨.cancel hid (.refl _), rfl, rfl⟩

theorem changes_dropWaiter? {id : Option Nat} (hid : id.toList ⊆ ids) :
    Changes (LetsGo ids) c (c.dropWaiter? id) := by
  cases id with
  | none => exact ⟨.refl _, rfl, rfl⟩
  | some id => exact changes_dropWaiter (hid (by simp))

/-- A client's request gives up both of its waiters. -/
theorem changes_dropWaiters (c : Connection) (error : Option Nat) (reply : Nat) :
    Changes (LetsGo (reply :: error.toList)) c ((c.dropWaiter? error).dropWaiter reply) :=
  (changes_dropWaiter? (List.subset_cons_self _ _)).trans (changes_dropWaiter List.mem_cons_self)
    LetsGo.trans

theorem isWaiting_dropWaiter (c : Connection) (id other : Nat) :
    (c.dropWaiter id).exchange.isWaiting other =
      (c.exchange.isWaiting other && decide (other ≠ id)) :=
  isWaiting_withMailbox isWaiting_released _ _ _

/-- Neither of them waits any more. -/
theorem isWaiting_dropWaiters (c : Connection) (error : Option Nat) (reply : Nat) :
    ∀ id ∈ reply :: error.toList,
      ((c.dropWaiter? error).dropWaiter reply).exchange.isWaiting id = false := by
  intro id hid
  rw [isWaiting_dropWaiter]
  cases error with
  | none =>
    obtain rfl : id = reply := by simpa using hid
    simp
  | some first =>
    rw [dropWaiter?, isWaiting_dropWaiter]
    rcases List.mem_cons.mp hid with rfl | hid
    · simp
    · obtain rfl : id = first := by simpa using hid
      simp

/-- Dropping a call lets go of its waiters. -/
theorem changes_drop (call : Call) (c : Connection) :
    Changes (LetsGo call.waiters) c (call.drop c) := by
  cases call with
  | receive waiter deadline keeps => exact changes_dropWaiter (by simp [Call.waiters])
  | send s => exact ⟨.refl _, rfl, rfl⟩
  | request waiter s => exact ⟨.cancel (by simp [Call.waiters]) (.refl _), rfl, rfl⟩
  | close turn => exact ⟨.refl _, rfl, rfl⟩
  | ask reply error s limit =>
    obtain ⟨hexchange, hreleased, hreader⟩ :=
      changes_dropWaiters (c.leaveTurns s.turn) error reply
    exact ⟨hexchange, hreleased, hreader⟩
  | hear event reply error deadline => exact changes_dropWaiters c error reply

/-! ### Writing -/

/-- Nothing happens, or a close for a reason. -/
def Closes (reason : String) (x y : Exchange) : Prop := y = x ∨ y = x.close reason

theorem Closes.then_letGo {x y z : Exchange} (h : Closes reason x y) (h' : LetsGo ids y z) :
    Evolves reason ids x z := by
  rcases h with rfl | rfl
  · exact .letGo h'
  · exact .close h'

theorem Closes.evolves {x y : Exchange} (h : Closes reason x y) : Evolves reason ids x y :=
  h.then_letGo (.refl y)

/-- What sending comes to, as far as anything but the pipe is concerned: something is left, or the
message is sent, or the transport has failed. -/
inductive Sends (c : Connection) (s : Sending) : SendPoll × Connection → Prop where
  | waits (left : List UInt8) (outbound : Outbound) :
      Sends c s (.pending { s with left }, { c with outbound })
  | sent (outbound : Outbound) :
      Sends c s (.finished (.ok ()), { c with outbound }.leaveTurns s.turn)
  | fails (outbound : Outbound) (fault : IoFault) :
      Sends c s ({ c with outbound }.endWrite s.turn fault)

theorem sends_pollSend (c : Connection) (s : Sending) : Sends c s (c.pollSend s) := by
  unfold pollSend
  split
  · cases c.outbound.write s.left with
    | mk result outbound =>
      cases result with
      | blocked left => exact .waits left outbound
      | failed fault => exact .fails outbound fault
      | done =>
        cases hflush : outbound.flush with
        | mk fault? flushed =>
          simp only [hflush]
          cases fault? with
          | none => exact .sent flushed
          | some fault => exact .fails flushed fault
  · exact .waits s.left c.outbound

theorem changes_endWrite (c : Connection) (turn : Nat) (fault : IoFault) :
    Changes (Closes peerWentAway) c (c.endWrite turn fault).2 := by
  unfold endWrite failWrite
  by_cases hgone : fault.toFailure.isNotConnected
  · simp only [if_pos hgone]
    exact ⟨.inr rfl, rfl, rfl⟩
  · simp only [if_neg hgone]
    exact ⟨.inl rfl, rfl, rfl⟩

/-- Writing changes nothing for the waiters, unless it finds the peer gone. -/
theorem changes_pollSend (c : Connection) (s : Sending) :
    Changes (Closes peerWentAway) c (c.pollSend s).2 := by
  have hsends := sends_pollSend c s
  generalize c.pollSend s = r at hsends
  cases hsends with
  | waits left outbound => exact ⟨.inl rfl, rfl, rfl⟩
  | sent outbound => exact ⟨.inl rfl, rfl, rfl⟩
  | fails outbound fault =>
    obtain ⟨hexchange, hreleased, hreader⟩ := changes_endWrite { c with outbound } s.turn fault
    exact ⟨hexchange, hreleased, hreader⟩

/-- What is left of a message is of the same event. -/
theorem event_pollSend {s s' : Sending} (h : (c.pollSend s).1 = .pending s') :
    s'.event = s.event := by
  have hsends := sends_pollSend c s
  generalize c.pollSend s = r at h hsends
  cases hsends with
  | waits left outbound =>
    cases h
    rfl
  | sent | fails => cases h

/-! ### Polling -/

/-- What a poll of a call with the waiters `ids` comes to: the connection changes as `P ids` says,
and as `P []` if the call is still there, which then holds all of its waiters. -/
structure Polls (P : List Nat → Exchange → Exchange → Prop) (ids : List Nat) (c : Connection)
    (r : Poll × Connection) : Prop where
  changes : Changes (P ids) c r.2
  pending : ∀ call, r.1 = .pending call → call.waiters = ids ∧ Changes (P []) c r.2

/-- A poll that ends the call. -/
theorem Polls.of_finished {P : List Nat → Exchange → Exchange → Prop} {outcome : Outcome}
    (h : Changes (P ids) c c') : Polls P ids c (.finished outcome, c') where
  changes := h
  pending call hcall := by cases hcall

/-- A poll that leaves the call there. -/
theorem Polls.of_pending {P : List Nat → Exchange → Exchange → Prop} {call : Call}
    (hmono : ∀ {x y}, P [] x y → P ids x y) (hids : call.waiters = ids) (h : Changes (P []) c c') :
    Polls P ids c (.pending call, c') where
  changes := h.imp hmono
  pending call hcall := by
    cases hcall
    exact ⟨hids, h⟩

/-- A poll that first writes. -/
theorem Polls.after_write {r : Poll × Connection} (h : Changes (Closes reason) c c')
    (h' : Polls LetsGo ids c' r) : Polls (Evolves reason) ids c r where
  changes := h.trans h'.changes Closes.then_letGo
  pending call hcall := by
    obtain ⟨hids, hchanges⟩ := h'.pending call hcall
    exact ⟨hids, h.trans hchanges Closes.then_letGo⟩

theorem outcome?_of_not_gone (hgone : c.isGone = false) (id : Nat) :
    c.outcome? id = c.exchange.outcome? id := by
  rw [outcome?]
  cases c.exchange.outcome? id with
  | some reply => rfl
  | none => simp [hgone]

theorem letsGo_nil_mono {x y : Exchange} (h : LetsGo [] x y) : LetsGo ids x y :=
  h.mono (List.nil_subset ids)

theorem evolves_nil_mono {x y : Exchange} (h : Evolves reason [] x y) : Evolves reason ids x y :=
  h.mono (List.nil_subset ids)

theorem polls_pollReceive (hgone : c.isGone = false) (now waiter : Nat)
    (deadline : Option Deadline) (keeps : Bool) :
    Polls LetsGo [waiter] c (Call.pollReceive c now waiter deadline keeps) := by
  rw [Call.pollReceive, outcome?_of_not_gone hgone]
  cases hreply : c.exchange.outcome? waiter with
  | some reply =>
    have hdone : c.exchange.isWaiting waiter = false := by simp [isWaiting_eq, hreply]
    exact .of_finished ⟨.settle (by simp) hdone (.refl _), rfl, rfl⟩
  | none =>
    cases Call.isPast deadline now with
    | some d => exact .of_finished (changes_dropWaiter (by simp))
    | none => exact .of_pending letsGo_nil_mono rfl ⟨.refl _, rfl, rfl⟩

/-- A wait for a message comes to what there is. -/
theorem pollReceive_of_outcome? {waiter : Nat} {r : Reply} (h : c.outcome? waiter = some r)
    (now : Nat) (deadline : Option Deadline) (keeps : Bool) :
    Call.pollReceive c now waiter deadline keeps =
      (.finished (.reply r), c.settleWaiter waiter) := by
  rw [Call.pollReceive, h]

/-- A wait that goes on is the same wait. -/
theorem eq_of_pollReceive {now waiter : Nat} {deadline : Option Deadline} {keeps : Bool}
    {call : Call} (h : (Call.pollReceive c now waiter deadline keeps).1 = .pending call) :
    call = .receive waiter deadline keeps := by
  rw [Call.pollReceive] at h
  cases hreply : c.outcome? waiter with
  | some reply =>
    rw [hreply] at h
    cases h
  | none =>
    cases hpast : Call.isPast deadline now with
    | some d =>
      rw [hreply, hpast] at h
      cases h
    | none =>
      rw [hreply, hpast] at h
      cases h
      rfl

theorem eq_of_pollHear {now reply : Nat} {event : String} {error : Option Nat}
    {deadline : Option Deadline} {call : Call}
    (h : (Call.pollHear c now event reply error deadline).1 = .pending call) :
    call = .hear event reply error deadline := by
  rw [Call.pollHear] at h
  cases hanswer : Call.verdict? (c.outcome? reply) (error.bind c.outcome?) with
  | some answer =>
    rw [hanswer] at h
    cases h
  | none =>
    cases hpast : Call.isPast deadline now with
    | some d =>
      rw [hanswer, hpast] at h
      cases h
    | none =>
      rw [hanswer, hpast] at h
      cases h
      rfl

theorem polls_pollHear (c : Connection) (now : Nat) (event : String) (reply : Nat)
    (error : Option Nat) (deadline : Option Deadline) :
    Polls LetsGo (reply :: error.toList) c
      (Call.pollHear c now event reply error deadline) := by
  rw [Call.pollHear]
  cases Call.verdict? (c.outcome? reply) (error.bind c.outcome?) with
  | some answer => exact .of_finished (changes_dropWaiters c error reply)
  | none =>
    cases Call.isPast deadline now with
    | some d => exact .of_finished (changes_dropWaiters c error reply)
    | none => exact .of_pending letsGo_nil_mono rfl ⟨.refl _, rfl, rfl⟩

/-- A closing call that waits for the write half concerns no waiter. -/
theorem polls_close (c : Connection) (turn now : Nat) :
    Polls LetsGo [] c ((Call.close turn).poll c now) := by
  rw [Call.poll]
  split
  · exact .of_finished ⟨.refl _, rfl, rfl⟩
  · exact .of_pending letsGo_nil_mono rfl ⟨.refl _, rfl, rfl⟩

/-- What a call does when it is polled. -/
theorem polls_poll (hgone : c.isGone = false) (call : Call) (now : Nat) :
    Polls (Evolves peerWentAway) call.waiters c (call.poll c now) := by
  cases call with
  | receive waiter deadline keeps =>
    exact .after_write ⟨.inl rfl, rfl, rfl⟩ (polls_pollReceive hgone now waiter deadline keeps)
  | send s =>
    have hwrite := changes_pollSend c s
    rw [Call.poll]
    cases hsend : c.pollSend s with
    | mk result c' =>
      rw [hsend] at hwrite
      cases result with
      | pending s' => exact .of_pending evolves_nil_mono rfl (hwrite.imp Closes.evolves)
      | finished result => cases result <;> exact .of_finished (hwrite.imp Closes.evolves)
  | request waiter s =>
    have hwrite := changes_pollSend c s
    rw [Call.poll]
    cases hsend : c.pollSend s with
    | mk result c' =>
      rw [hsend] at hwrite
      cases result with
      | pending s' => exact .of_pending evolves_nil_mono rfl (hwrite.imp Closes.evolves)
      | finished result =>
        cases result with
        | ok _ =>
          -- what is wholly written is waited for in the same poll
          exact .after_write hwrite
            (polls_pollReceive (hwrite.isGone.trans hgone) now waiter none true)
        | error failure =>
          exact .after_write hwrite (.of_finished (changes_dropWaiter (by simp [Call.waiters])))
  | close turn => exact .after_write ⟨.inl rfl, rfl, rfl⟩ (polls_close c turn now)
  | ask reply error s limit =>
    have hwrite := changes_pollSend c s
    rw [Call.poll]
    cases hsend : c.pollSend s with
    | mk result c' =>
      rw [hsend] at hwrite
      cases result with
      | pending s' => exact .of_pending evolves_nil_mono rfl (hwrite.imp Closes.evolves)
      | finished result =>
        cases result with
        | ok _ => exact .after_write hwrite (polls_pollHear c' now s.event reply error _)
        | error failure =>
          exact .after_write hwrite (.of_finished (changes_dropWaiters c' error reply))
  | hear event reply error deadline =>
    exact .after_write ⟨.inl rfl, rfl, rfl⟩ (polls_pollHear c now event reply error deadline)

/-- What is left of a call that goes on. -/
theorem goesOn_poll {call call' : Call} {now : Nat} (h : (call.poll c now).1 = .pending call') :
    call.GoesOn now call' := by
  cases call with
  | receive waiter deadline keeps =>
    rw [eq_of_pollReceive h]
    exact .waits _
  | send s =>
    rw [Call.poll] at h
    cases hsend : c.pollSend s with
    | mk result c' =>
      rw [hsend] at h
      cases result with
      | pending s' =>
        cases h
        exact .sends
      | finished result => cases result <;> cases h
  | request waiter s =>
    rw [Call.poll] at h
    cases hsend : c.pollSend s with
    | mk result c' =>
      rw [hsend] at h
      cases result with
      | pending s' =>
        cases h
        exact .requests
      | finished result =>
        cases result with
        | ok _ =>
          rw [eq_of_pollReceive h]
          exact .receives
        | error failure => cases h
  | close turn =>
    rw [Call.poll] at h
    split at h <;> cases h
    exact .waits _
  | ask reply error s limit =>
    rw [Call.poll] at h
    cases hsend : c.pollSend s with
    | mk result c' =>
      rw [hsend] at h
      cases result with
      | pending s' =>
        cases h
        exact .asks (event_pollSend (by rw [hsend]))
      | finished result =>
        cases result with
        | ok _ =>
          rw [eq_of_pollHear h]
          exact .hears
        | error failure => cases h
  | hear event reply error deadline =>
    rw [eq_of_pollHear h]
    exact .waits _

theorem length_poll (hgone : c.isGone = false) {call call' : Call} {now : Nat}
    (hcall : call.waiters.length = call.slots) (h : (call.poll c now).1 = .pending call') :
    call'.waiters.length = call'.slots := by
  rw [((polls_poll hgone call now).pending call' h).1, hcall, (goesOn_poll h).slots]

/-! ### Beginning a call -/

/-- What the first poll of a call comes to. Its waiters are new, and no others are let go. -/
structure Begins (reason : String) (c : Connection) (r : Poll × Connection) : Prop where
  changes : ∃ ids, (∀ id ∈ ids, c.exchange.mailboxes.length ≤ id) ∧
    Changes (Evolves reason ids) c r.2
  pending : ∀ call, r.1 = .pending call → call.waiters.Nodup ∧
    ∀ id ∈ call.waiters, c.exchange.mailboxes.length ≤ id ∧ r.2.exchange.isHeld id = true

theorem begins_of_polls (hsound : c.exchange.Sound) {r : Poll × Connection}
    (h : Changes (Registers ids) c c') (hr : Polls (Evolves reason) ids c' r) :
    Begins reason c r := by
  refine ⟨⟨ids, h.exchange.length_le hsound, h.trans hr.changes Registers.then_evolves⟩, ?_⟩
  intro call hcall
  obtain ⟨rfl, hchanges⟩ := hr.pending call hcall
  refine ⟨h.exchange.nodup hsound, ?_⟩
  intro id hid
  refine ⟨h.exchange.length_le hsound id hid, ?_⟩
  -- a call that is pending has let go of nobody, so its waiters are held as they were registered
  have hheld := h.exchange.isHeld hsound id hid
  rwa [hchanges.exchange.isHeld_eq (h.exchange.sound hsound) List.not_mem_nil (lt_of_isHeld hheld)]

/-- A call that fails before its first poll gives up its waiters. -/
theorem begins_of_failed (hsound : c.exchange.Sound) {failure : Failure}
    (h : Changes (Registers ids) c c') (h' : Changes (LetsGo ids) c' c'') :
    Begins reason c (.failed failure, c'') :=
  begins_of_polls hsound h (.of_finished (h'.imp .letGo))

theorem changes_self (c : Connection) : Changes (Registers []) c c := ⟨.nil _, rfl, rfl⟩

theorem changes_register {event : String} {id : Nat} (h : c.register event = .ok (id, c')) :
    Changes (Registers [id]) c c' := by
  rw [register] at h
  cases hregister : c.exchange.register event with
  | ok y =>
    rw [hregister] at h
    cases h
    exact ⟨.cons hregister (.nil _), rfl, rfl⟩
  | error failure =>
    rw [hregister] at h
    cases h

theorem changes_registerError {event : String} {error : Option Nat}
    (h : c.registerError event = .ok (error, c')) : Changes (Registers error.toList) c c' := by
  rw [registerError] at h
  split at h
  · cases h
    exact changes_self c
  · cases hregister : c.register Envelope.errorEvent with
    | ok r =>
      rw [hregister] at h
      cases h
      exact changes_register hregister
    | error failure =>
      rw [hregister] at h
      cases h

/-- A message that queues for the write half changes nothing for the waiters. -/
theorem changes_beginSend {event : String} {payload : Payload} {s : Sending}
    (h : c.beginSend event payload = .ok (s, c')) (hP : Changes P c'' c) : Changes P c'' c' := by
  rw [beginSend] at h
  cases hvalue : payload.toValue with
  | error fault =>
    rw [hvalue] at h
    cases h
  | ok data =>
    rw [hvalue] at h
    simp only at h
    split at h
    · cases h
      exact ⟨hP.exchange, hP.released, hP.reader⟩
    · cases h

theorem event_beginSend {event : String} {payload : Payload} {s : Sending}
    (h : c.beginSend event payload = .ok (s, c')) : s.event = event := by
  rw [beginSend] at h
  cases hvalue : payload.toValue with
  | error fault =>
    rw [hvalue] at h
    cases h
  | ok data =>
    rw [hvalue] at h
    simp only at h
    split at h
    · cases h
      rfl
    · cases h

theorem slots_ask {event : String} {reply : Nat} {error : Option Nat} {s : Sending}
    (herror : c.registerError event = .ok (error, c')) (hs : s.event = event) (limit : Option Nat) :
    (Call.ask reply error s limit).waiters.length = (Call.ask reply error s limit).slots := by
  rw [registerError] at herror
  rw [Call.waiters, Call.slots, slotsFor, hs]
  split at herror
  · next hevent =>
    cases herror
    simp [hevent]
  · next hevent =>
    cases hregister : c.register Envelope.errorEvent with
    | ok r =>
      rw [hregister] at herror
      cases herror
      simp [hevent]
    | error failure =>
      rw [hregister] at herror
      cases herror

/-- How the first poll of a call comes about: its waiters are registered, and either it fails before
it is polled and gives them up, or it is polled. -/
inductive First (c : Connection) (now : Nat) : Poll × Connection → Prop where
  | failed {ids : List Nat} {c' c'' : Connection} (failure : Failure)
      (h : Changes (Registers ids) c c') (h' : Changes (LetsGo ids) c' c'')
      (hfreed : ∀ id ∈ ids, c''.exchange.isWaiting id = false) :
      First c now (.failed failure, c'')
  | polled {c' : Connection} (call : Call) (h : Changes (Registers call.waiters) c c')
      (hslots : call.waiters.length = call.slots) : First c now (call.poll c' now)

/-- How a client's request comes about: it fails and gives its waiters up, but not for want of time,
or its message is on its way and it is polled. -/
inductive BeginsToAsk (event : String) (limit : Option Nat) (c : Connection) (now : Nat) :
    Poll × Connection → Prop where
  | failed {ids : List Nat} {c' c'' : Connection} (failure : Failure)
      (h : Changes (Registers ids) c c') (h' : Changes (LetsGo ids) c' c'')
      (hfreed : ∀ id ∈ ids, c''.exchange.isWaiting id = false)
      (hfailure : ∀ text, failure ≠ .timeout text) :
      BeginsToAsk event limit c now (.failed failure, c'')
  | polled {c' : Connection} {reply : Nat} {error : Option Nat} {s : Sending}
      (h : Changes (Registers (reply :: error.toList)) c c') (hevent : s.event = event)
      (hslots : (Call.ask reply error s limit).waiters.length =
        (Call.ask reply error s limit).slots) :
      BeginsToAsk event limit c now ((Call.ask reply error s limit).poll c' now)

section

variable {event text : String} {failure : Failure}

/-- A failed registration is for want of an open connection. -/
theorem ne_timeout_of_register (h : c.register event = .error failure) :
    failure ≠ .timeout text := by
  rintro rfl
  by_cases hopen : c.exchange.registry.status = .open <;>
    simp [register, Exchange.register, Registry.register, hopen] at h

theorem ne_timeout_of_registerError (h : c.registerError event = .error failure) :
    failure ≠ .timeout text := by
  rw [registerError] at h
  split at h
  · cases h
  · cases hregister : c.register Envelope.errorEvent with
    | ok r =>
      rw [hregister] at h
      cases h
    | error failure =>
      rw [hregister] at h
      cases h
      exact ne_timeout_of_register hregister

theorem ne_timeout_of_beginSend {payload : Payload}
    (h : c.beginSend event payload = .error failure) : failure ≠ .timeout text := by
  rintro rfl
  rw [beginSend] at h
  split at h
  · cases h
  · split at h <;> cases h

end

section

variable (c : Connection) (now : Nat)

theorem first_failed (failure : Failure) : First c now (.failed failure, c) :=
  .failed failure (changes_self c) ⟨.refl _, rfl, rfl⟩ (by simp)

theorem first_awaitOnce (event : String) : First c now (c.awaitOnce now event) := by
  rw [awaitOnce]
  cases hregister : c.register event with
  | error failure => exact first_failed c now failure
  | ok r => exact .polled (.receive r.1 none true) (changes_register hregister) rfl

theorem first_send (event : String) (payload : Payload) :
    First c now (c.send now event payload) := by
  rw [send]
  cases hbegin : c.beginSend event payload with
  | error failure => exact first_failed c now failure
  | ok r => exact .polled (.send r.1) (changes_beginSend hbegin (changes_self c)) rfl

theorem first_request (event : String) (payload : Payload) :
    First c now (c.request now event payload) := by
  rw [request]
  cases hregister : c.register event with
  | error failure => exact first_failed c now failure
  | ok r =>
    have hregistered := changes_register hregister
    simp only
    cases hbegin : r.2.beginSend event payload with
    | error failure =>
      exact .failed failure hregistered (changes_dropWaiter (by simp))
        (by simp [isWaiting_dropWaiter])
    | ok t => exact .polled (.request r.1 t.1) (changes_beginSend hbegin hregistered) rfl

theorem begins_to_ask (event : String) (payload : Payload) (limit : Option Nat) :
    BeginsToAsk event limit c now (c.ask now event payload limit) := by
  rw [ask]
  cases hregister : c.register event with
  | error failure =>
    exact .failed failure (changes_self c) ⟨.refl _, rfl, rfl⟩ (by simp)
      fun _ => ne_timeout_of_register hregister
  | ok r =>
    have hregistered := changes_register hregister
    simp only
    cases herror : r.2.registerError event with
    | error failure =>
      exact .failed failure hregistered (changes_dropWaiter (by simp))
        (by simp [isWaiting_dropWaiter]) fun _ => ne_timeout_of_registerError herror
    | ok q =>
      have hboth := hregistered.trans (changes_registerError herror) Registers.trans
      simp only
      cases hbegin : q.2.beginSend event payload with
      | error failure =>
        exact .failed failure hboth (changes_dropWaiters _ _ _) (isWaiting_dropWaiters _ _ _)
          fun _ => ne_timeout_of_beginSend hbegin
      | ok t =>
        exact .polled (changes_beginSend hbegin hboth) (event_beginSend hbegin)
          (slots_ask herror (event_beginSend hbegin) limit)

theorem first_ask (event : String) (payload : Payload) (limit : Option Nat) :
    First c now (c.ask now event payload limit) := by
  have hbegins := begins_to_ask c now event payload limit
  generalize c.ask now event payload limit = r at hbegins
  cases hbegins with
  | failed failure h h' hfreed _ => exact .failed failure h h' hfreed
  | polled h _ hslots => exact .polled _ h hslots

/-- What is left of a client's request that goes on, once it has begun. -/
theorem goesOn_ask {c : Connection} {event : String} {payload : Payload} {limit : Option Nat}
    {call : Call} (h : (c.ask now event payload limit).1 = .pending call) :
    ∃ reply error s, s.event = event ∧ (Call.ask reply error s limit).GoesOn now call := by
  have hbegins := begins_to_ask c now event payload limit
  generalize c.ask now event payload limit = r at h hbegins
  cases hbegins with
  | failed => cases h
  | @polled c' reply error s _ hevent _ => exact ⟨reply, error, s, hevent, goesOn_poll h⟩

/-- A client's request that goes on holds the waiters for its tag. -/
theorem slots_of_ask {c : Connection} {event : String} {payload : Payload} {limit : Option Nat}
    {call : Call} (h : (c.ask now event payload limit).1 = .pending call) :
    call.slots = slotsFor event := by
  obtain ⟨reply, error, s, hevent, hgoesOn⟩ := goesOn_ask now h
  rw [hgoesOn.slots, Call.slots, hevent]

end

variable (hsound : c.exchange.Sound) (hgone : c.isGone = false) (now : Nat)

include hsound hgone

omit hsound in
/-- A call that has begun holds as many waiters as it should. -/
theorem length_first {r : Poll × Connection} {call : Call} (h : First c now r)
    (hr : r.1 = .pending call) : call.waiters.length = call.slots := by
  cases h with
  | failed failure => cases hr
  | polled call' h hslots => exact length_poll (h.isGone.trans hgone) hslots hr

theorem begins_of_first {r : Poll × Connection} (h : First c now r) :
    Begins peerWentAway c r := by
  cases h with
  | failed failure h h' => exact begins_of_failed hsound h h'
  | polled call h => exact begins_of_polls hsound h (polls_poll (h.isGone.trans hgone) call now)

theorem begins_awaitOnce (event : String) :
    Begins peerWentAway c (c.awaitOnce now event) :=
  begins_of_first hsound hgone now (first_awaitOnce c now event)

theorem begins_send (event : String) (payload : Payload) :
    Begins peerWentAway c (c.send now event payload) :=
  begins_of_first hsound hgone now (first_send c now event payload)

theorem begins_request (event : String) (payload : Payload) :
    Begins peerWentAway c (c.request now event payload) :=
  begins_of_first hsound hgone now (first_request c now event payload)

theorem begins_ask (event : String) (payload : Payload) (limit : Option Nat) :
    Begins peerWentAway c (c.ask now event payload limit) :=
  begins_of_first hsound hgone now (first_ask c now event payload limit)

omit hsound hgone in
theorem length_close {call : Call} (h : (c.close now).1 = .pending call) :
    call.waiters.length = call.slots := by
  let closed := ({ c with cancelled := true }.closeFor closedLocally).joinTurns
  have hpoll : ((Call.close closed.1).poll closed.2 now).1 = .pending call := h
  rw [((polls_close closed.2 closed.1 now).pending call hpoll).1, (goesOn_poll hpoll).slots]
  rfl

omit hgone in
theorem begins_close : Begins closedLocally c (c.close now) := by
  have hclose : Changes (Closes closedLocally) c
      (({ c with cancelled := true }.closeFor closedLocally).joinTurns).2 := ⟨.inr rfl, rfl, rfl⟩
  exact begins_of_polls hsound (changes_self c) (.after_write hclose (polls_close _ _ now))

end Connection

end EnvelopeClient
