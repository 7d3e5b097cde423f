import EnvelopeClient.Proofs.Connection.Transport

/-!
# What calls do at the write half

Whoever polls a call writes only in the turn of that call. `poll_aside` is the poll of a call that
has no turn, or has to wait for it: it writes nothing and leaves the line at the write half as it
is. `poll_in_turn` is the poll of a call whose turn it is: it writes the front of what is left of its
message, and keeps its turn only as long as something is left.
-/

namespace EnvelopeClient

/-- The message a call has to write. -/
def Call.sending? : Call → Option Sending
  | .send s | .request _ s | .ask _ _ s _ => some s
  | .receive _ _ _ | .close _ | .hear _ _ _ _ => none

/-- The turn at the write half a call has asked for and not given up. -/
def Call.turn? : Call → Option Nat
  | .close turn => some turn
  | call => call.sending?.map (·.turn)

/-- What is left to write. -/
def Call.left (call : Call) : List UInt8 := (call.sending?.map (·.left)).getD []

/-- A call without a turn has nothing to write. -/
theorem Call.left_of_turn? {call : Call} (h : call.turn? = none) : call.left = [] := by
  cases call with
  | receive _ _ _ | hear _ _ _ _ => rfl
  | send _ | request _ _ | close _ | ask _ _ _ _ => cases h

/-- Whether a call ended as its caller wished. -/
def Outcome.isOk : Outcome → Bool
  | .done | .reply (.ok _) => true
  | .reply (.error _) => false

/-! ### The pipe -/

namespace Outbound

/-- Filling a pipe puts the front of a text behind what is there. -/
theorem fill_cases (p : Outbound) (bytes : List UInt8) :
    ∃ more left, bytes = more ++ left ∧ (p.fill bytes).2.unread = p.unread ++ more ∧
      (((p.fill bytes).1 = .done ∧ left = []) ∨ ((p.fill bytes).1 = .blocked left ∧ left ≠ []) ∨
        ∃ fault, (p.fill bytes).1 = .failed fault) := by
  unfold fill
  split
  · next hempty => exact ⟨[], [], by simpa using hempty, by simp, .inl ⟨rfl, rfl⟩⟩
  · split
    · exact ⟨[], bytes, rfl, by simp, .inr (.inr ⟨_, rfl⟩)⟩
    · refine ⟨bytes.take (p.room bytes.length), bytes.drop (p.room bytes.length),
        (List.take_append_drop _ _).symm, ?_, ?_⟩
      · simp only
        split <;> rfl
      · simp only
        cases hleft : bytes.drop (p.room bytes.length) with
        | nil => exact .inl ⟨rfl, rfl⟩
        | cons b left => exact .inr (.inl ⟨rfl, List.cons_ne_nil b left⟩)

/-- So does writing, whatever trap is laid. -/
theorem write_cases (p : Outbound) (bytes : List UInt8) :
    ∃ more left, bytes = more ++ left ∧ (p.write bytes).2.unread = p.unread ++ more ∧
      (((p.write bytes).1 = .done ∧ left = []) ∨ ((p.write bytes).1 = .blocked left ∧ left ≠ []) ∨
        ∃ fault, (p.write bytes).1 = .failed fault) := by
  unfold write
  split
  · next hempty => exact ⟨[], [], by simpa using hempty, by simp, .inl ⟨rfl, rfl⟩⟩
  · cases htrap : p.writeTrap with
    | none => exact fill_cases p bytes
    | some trap =>
      -- a trap strikes before anything is written, and an interruption is none
      cases trap with
      | zero => exact ⟨[], bytes, rfl, by simp, .inr (.inr ⟨_, rfl⟩)⟩
      | fails fault =>
        simp only
        split
        · exact fill_cases { p with writeTrap := none } bytes
        · exact ⟨[], bytes, rfl, by simp, .inr (.inr ⟨_, rfl⟩)⟩

theorem unread_flush (p : Outbound) : p.flush.2.unread = p.unread := by
  unfold flush
  split <;> rfl

theorem unread_shutdown (p : Outbound) : p.shutdown.2.unread = p.unread := by
  unfold shutdown
  split <;> rfl

end Outbound

namespace Connection

variable {c c' c'' : Connection} {s : Sending} {more : List UInt8} {turns turns' : List Nat}

/-! ### Sending -/

/-- Some bytes were written, and `turns` is the line at the write half behind them. -/
structure Wrote (more : List UInt8) (turns : List Nat) (c c' : Connection) : Prop where
  unread : c'.outbound.unread = c.outbound.unread ++ more
  turns : c'.turns = turns
  nextTurn : c'.nextTurn = c.nextTurn

theorem wrote_nothing (c : Connection) : Wrote [] c.turns c c :=
  ⟨(List.append_nil _).symm, rfl, rfl⟩

/-- Nothing more is written, and the line stays as it is. -/
theorem Wrote.then_nothing (h : Wrote more turns c c') (h' : Wrote [] c'.turns c' c'') :
    Wrote more turns c c'' where
  unread := by rw [h'.unread, h.unread, List.append_nil]
  turns := h'.turns.trans h.turns
  nextTurn := h'.nextTurn.trans h.nextTurn

theorem wrote_endWrite (c : Connection) (turn : Nat) (fault : IoFault) :
    Wrote [] (c.turns.filter (· ≠ turn)) c (c.endWrite turn fault).2 ∧
      ∃ failure, (c.endWrite turn fault).1 = .finished (.error failure) := by
  unfold endWrite failWrite
  by_cases hgone : fault.toFailure.isNotConnected
  · simp only [if_pos hgone]
    exact ⟨⟨(List.append_nil _).symm, rfl, rfl⟩, _, rfl⟩
  · simp only [if_neg hgone]
    exact ⟨⟨(List.append_nil _).symm, rfl, rfl⟩, _, rfl⟩

/-- What sending comes to in its turn: the front of the message is written, and either something is
left and the turn goes on, or the turn is over, with success only if nothing is left. -/
theorem pollSend_in_turn (hturn : c.turns.head? = some s.turn) :
    ∃ more left, s.left = more ++ left ∧
      ((c.pollSend s).1 = .pending { s with left } ∧ Wrote more c.turns c (c.pollSend s).2 ∨
        ∃ result, (c.pollSend s).1 = .finished result ∧ (result = .ok () → left = []) ∧
          Wrote more (c.turns.filter (· ≠ s.turn)) c (c.pollSend s).2) := by
  obtain ⟨more, left, hleft, hunread, hcase⟩ := Outbound.write_cases c.outbound s.left
  refine ⟨more, left, hleft, ?_⟩
  unfold pollSend
  rw [hasTurn, if_pos (by simpa using hturn)]
  cases hwrite : c.outbound.write s.left with
  | mk result outbound =>
    rw [hwrite] at hunread hcase
    -- a failure ends the turn behind whatever was written
    have hends : ∀ (p : Outbound) (fault : IoFault), p.unread = c.outbound.unread ++ more →
        Wrote more (c.turns.filter (· ≠ s.turn)) c
          (endWrite { c with outbound := p } s.turn fault).2 := by
      intro p fault hp
      have hwrote := (wrote_endWrite { c with outbound := p } s.turn fault).1
      exact ⟨by rw [hwrote.unread, List.append_nil, hp], hwrote.turns, hwrote.nextTurn⟩
    have hfails : ∀ (p : Outbound) (fault : IoFault),
        ∃ failure, (endWrite { c with outbound := p } s.turn fault).1 =
          .finished (.error failure) :=
      fun p fault => (wrote_endWrite { c with outbound := p } s.turn fault).2
    rcases hcase with ⟨rfl, rfl⟩ | ⟨rfl, -⟩ | ⟨fault, rfl⟩
    · have hflushed := (Outbound.unread_flush outbound).trans hunread
      cases hflush : outbound.flush with
      | mk fault? flushed =>
        rw [hflush] at hflushed
        cases fault? with
        | none =>
          simp only [hflush]
          exact .inr ⟨_, rfl, fun _ => trivial, hflushed, rfl, rfl⟩
        | some fault =>
          simp only [hflush]
          obtain ⟨failure, hfailed⟩ := hfails flushed fault
          exact .inr ⟨_, hfailed, fun _ => trivial, hends flushed fault hflushed⟩
    · exact .inl ⟨rfl, hunread, rfl, rfl⟩
    · obtain ⟨failure, hfailed⟩ := hfails outbound fault
      refine .inr ⟨_, hfailed, ?_, hends outbound fault hunread⟩
      intro hok
      cases hok

/-! ### Polling -/

/-- A wait for a message writes nothing, and asks for no turn. -/
theorem wrote_pollReceive (c : Connection) (now waiter : Nat) (deadline : Option Deadline)
    (keeps : Bool) :
    Wrote [] c.turns c (Call.pollReceive c now waiter deadline keeps).2 ∧
      ∀ call, (Call.pollReceive c now waiter deadline keeps).1 = .pending call →
        call.turn? = none := by
  refine ⟨?_, ?_⟩
  · unfold Call.pollReceive
    split
    · exact ⟨(List.append_nil _).symm, rfl, rfl⟩
    · split <;> exact ⟨(List.append_nil _).symm, rfl, rfl⟩
  · intro call hcall
    rw [eq_of_pollReceive hcall]
    rfl

theorem wrote_dropWaiters (c : Connection) (error : Option Nat) (reply : Nat) :
    Wrote [] c.turns c ((c.dropWaiter? error).dropWaiter reply) := by
  cases error <;> exact ⟨(List.append_nil _).symm, rfl, rfl⟩

theorem wrote_pollHear (c : Connection) (now : Nat) (event : String) (reply : Nat)
    (error : Option Nat) (deadline : Option Deadline) :
    Wrote [] c.turns c (Call.pollHear c now event reply error deadline).2 ∧
      ∀ call, (Call.pollHear c now event reply error deadline).1 = .pending call →
        call.turn? = none := by
  refine ⟨?_, ?_⟩
  · unfold Call.pollHear
    split
    · exact wrote_dropWaiters c error reply
    · split
      · exact wrote_dropWaiters c error reply
      · exact wrote_nothing c
  · intro call hcall
    rw [eq_of_pollHear hcall]
    rfl

/-- Polled out of its turn, a call writes nothing, and asks for nothing it had not asked for. -/
theorem poll_aside (call : Call) (now : Nat)
    (hturn : ∀ turn, call.turn? = some turn → c.turns.head? ≠ some turn) :
    Wrote [] c.turns c (call.poll c now).2 ∧
      (∀ call', (call.poll c now).1 = .pending call' → call'.turn? = call.turn?) ∧
      (call.turn? ≠ none → (call.poll c now).1 = .pending call) := by
  -- who has to wait for the turn does nothing at all
  have hwaits : ∀ call' : Call, (call.poll c now) = (.pending call', c) → call' = call →
      Wrote [] c.turns c (call.poll c now).2 ∧
        (∀ call', (call.poll c now).1 = .pending call' → call'.turn? = call.turn?) ∧
        (call.turn? ≠ none → (call.poll c now).1 = .pending call) := by
    rintro call' hpoll rfl
    rw [hpoll]
    refine ⟨wrote_nothing c, ?_, fun _ => rfl⟩
    rintro call'' ⟨⟩
    rfl
  cases call with
  | receive waiter deadline keeps =>
    obtain ⟨hwrote, hcall⟩ := wrote_pollReceive c now waiter deadline keeps
    exact ⟨hwrote, hcall, fun h => absurd rfl h⟩
  | hear event reply error deadline =>
    obtain ⟨hwrote, hcall⟩ := wrote_pollHear c now event reply error deadline
    exact ⟨hwrote, hcall, fun h => absurd rfl h⟩
  | send s => exact hwaits (.send s) (by rw [Call.poll, pollSend_of_other (hturn _ rfl)]) rfl
  | request waiter s =>
    exact hwaits (.request waiter s) (by rw [Call.poll, pollSend_of_other (hturn _ rfl)]) rfl
  | ask reply error s limit =>
    exact hwaits (.ask reply error s limit) (by rw [Call.poll, pollSend_of_other (hturn _ rfl)]) rfl
  | close turn =>
    refine hwaits (.close turn) ?_ rfl
    rw [Call.poll, hasTurn, if_neg (by simpa using hturn turn rfl)]

/-- What a poll of a call in its turn comes to: the front of its message is written, and either the
turn goes on with the rest, or it is over; then nothing is left if the call goes on or has
succeeded. -/
inductive InTurn (turn : Nat) (bytes : List UInt8) (c : Connection) (r : Poll × Connection) :
    Prop where
  | goesOn {more left : List UInt8} {call : Call} (hbytes : bytes = more ++ left)
      (hcall : r.1 = .pending call) (hturn : call.turn? = some turn) (hleft : call.left = left)
      (hwrote : Wrote more c.turns c r.2)
  | ends {more left : List UInt8} (hbytes : bytes = more ++ left)
      (hpending : ∀ call, r.1 = .pending call → call.turn? = none ∧ left = [])
      (hfinished : ∀ outcome, r.1 = .finished outcome → outcome.isOk = true → left = [])
      (hwrote : Wrote more (c.turns.filter (· ≠ turn)) c r.2)

/-- A poll that writes first, and goes on once all is written. -/
theorem inTurn_of_pollSend {r : Poll × Connection} (hturn : c.turns.head? = some s.turn)
    (hpending : ∀ s' c', c.pollSend s = (.pending s', c') →
      ∃ call, r = (.pending call, c') ∧ call.turn? = some s'.turn ∧ call.left = s'.left)
    (hsent : ∀ c', c.pollSend s = (.finished (.ok ()), c') → Wrote [] c'.turns c' r.2 ∧
      ∀ call, r.1 = .pending call → call.turn? = none)
    (hfailed : ∀ failure c', c.pollSend s = (.finished (.error failure), c') →
      ∃ c'', r = (.failed failure, c'') ∧ Wrote [] c'.turns c' c'') :
    InTurn s.turn s.left c r := by
  obtain ⟨more, left, hleft, hcase⟩ := pollSend_in_turn hturn
  cases hsend : c.pollSend s with
  | mk result c' =>
    rw [hsend] at hcase
    rcases hcase with ⟨rfl, hwrote⟩ | ⟨result, rfl, hok, hwrote⟩
    · obtain ⟨call, rfl, hcall, hrest⟩ := hpending _ _ hsend
      exact .goesOn hleft rfl hcall hrest hwrote
    · cases result with
      | ok u =>
        obtain rfl := hok rfl
        obtain ⟨hnothing, hcall⟩ := hsent _ hsend
        exact .ends hleft (fun call hpending => ⟨hcall call hpending, rfl⟩) (fun _ _ _ => rfl)
          (hwrote.then_nothing hnothing)
      | error failure =>
        obtain ⟨c'', rfl, hnothing⟩ := hfailed _ _ hsend
        refine .ends hleft ?_ ?_ (hwrote.then_nothing hnothing)
        · rintro call ⟨⟩
        · rintro outcome ⟨⟩ hok
          cases hok

theorem poll_in_turn (call : Call) (now : Nat) {turn : Nat} (hcall : call.turn? = some turn)
    (hturn : c.turns.head? = some turn) : InTurn turn call.left c (call.poll c now) := by
  cases call with
  | receive waiter deadline keeps => cases hcall
  | hear event reply error deadline => cases hcall
  | close turn' =>
    cases hcall
    rw [Call.poll, hasTurn, if_pos (by simpa using hturn)]
    have hnothing : (Call.close turn).left = [] ++ [] := rfl
    refine .ends hnothing ?_ (fun _ _ _ => rfl) ⟨?_, rfl, rfl⟩
    · rintro call ⟨⟩
    · rw [List.append_nil]
      exact Outbound.unread_shutdown c.outbound
  | send s =>
    cases hcall
    refine inTurn_of_pollSend hturn ?_ ?_ ?_
    · intro s' c' hsend
      rw [Call.poll, hsend]
      exact ⟨_, rfl, rfl, rfl⟩
    · intro c' hsend
      rw [Call.poll, hsend]
      refine ⟨wrote_nothing c', ?_⟩
      rintro call ⟨⟩
    · intro failure c' hsend
      rw [Call.poll, hsend]
      exact ⟨c', rfl, wrote_nothing c'⟩
  | request waiter s =>
    cases hcall
    refine inTurn_of_pollSend hturn ?_ ?_ ?_
    · intro s' c' hsend
      rw [Call.poll, hsend]
      exact ⟨_, rfl, rfl, rfl⟩
    · intro c' hsend
      rw [Call.poll, hsend]
      exact wrote_pollReceive c' now waiter none true
    · intro failure c' hsend
      rw [Call.poll, hsend]
      exact ⟨_, rfl, wrote_dropWaiters c' none waiter⟩
  | ask reply error s limit =>
    cases hcall
    refine inTurn_of_pollSend hturn ?_ ?_ ?_
    · intro s' c' hsend
      rw [Call.poll, hsend]
      exact ⟨_, rfl, rfl, rfl⟩
    · intro c' hsend
      rw [Call.poll, hsend]
      exact wrote_pollHear c' now s.event reply error _
    · intro failure c' hsend
      rw [Call.poll, hsend]
      exact ⟨_, rfl, wrote_dropWaiters c' error reply⟩

/-! ### Dropping -/

/-- Dropping a call writes nothing, and gives up its turn. -/
theorem wrote_drop (call : Call) (c : Connection) :
    Wrote [] (c.turns.filter fun turn => call.turn? ≠ some turn) c (call.drop c) := by
  have hall : c.turns.filter (fun turn => (none : Option Nat) ≠ some turn) = c.turns := by simp
  have hone : ∀ turn, c.turns.filter (· ≠ turn) =
      c.turns.filter fun other => some turn ≠ some other := by
    intro turn
    refine List.filter_congr ?_
    intro other _
    simp [eq_comm]
  have hnothing : c.outbound.unread = c.outbound.unread ++ [] := (List.append_nil _).symm
  cases call with
  | receive waiter deadline keeps => exact ⟨hnothing, hall.symm, rfl⟩
  | send s => exact ⟨hnothing, hone s.turn, rfl⟩
  | request waiter s => exact ⟨hnothing, hone s.turn, rfl⟩
  | close turn => exact ⟨hnothing, hone turn, rfl⟩
  | ask reply error s limit =>
    have hwrote := wrote_dropWaiters (c.leaveTurns s.turn) error reply
    exact ⟨hwrote.unread, hwrote.turns.trans (hone s.turn), hwrote.nextTurn⟩
  | hear event reply error deadline =>
    have hwrote := wrote_dropWaiters c error reply
    exact ⟨hwrote.unread, hwrote.turns.trans hall.symm, hwrote.nextTurn⟩

/-! ### Beginning a call -/

/-- How a call that has some bytes to write comes about: it fails before it has asked for the write
half, or it asks for the next turn and is polled. Bytes can be asked for only while the connection is
open. -/
inductive Asks (bytes : List UInt8) (c : Connection) (now : Nat) : Poll × Connection → Prop where
  | refused {c' : Connection} (failure : Failure) (hwrote : Wrote [] c.turns c c') :
      Asks bytes c now (.failed failure, c')
  | polled {c' : Connection} (call : Call) (hturn : call.turn? = some c.nextTurn)
      (hleft : call.left = bytes) (hopen : bytes ≠ [] → c.status = .open)
      (hunread : c'.outbound.unread = c.outbound.unread)
      (hturns : c'.turns = c.turns ++ [c.nextTurn]) (hnext : c'.nextTurn = c.nextTurn + 1) :
      Asks bytes c now (call.poll c' now)

/-- The bytes of a message, if its payload can be sent. -/
def textOf (event : String) (payload : Payload) : List UInt8 :=
  match payload.toValue with
  | .ok data => (Envelope.mk event data).toBytes
  | .error _ => []

/-- A message that queues for the write half is the last in line, and the connection is open. -/
theorem beginSend_cases {event : String} {payload : Payload}
    (h : c.beginSend event payload = .ok (s, c')) :
    c.status = .open ∧ s.turn = c.nextTurn ∧ s.left = textOf event payload ∧
      c' = { c with turns := c.turns ++ [c.nextTurn], nextTurn := c.nextTurn + 1 } := by
  unfold beginSend at h
  cases hvalue : payload.toValue with
  | error fault =>
    rw [hvalue] at h
    cases h
  | ok data =>
    rw [hvalue] at h
    simp only at h
    split at h
    · next hopen =>
      cases h
      exact ⟨hopen, rfl, by rw [textOf, hvalue], rfl⟩
    · cases h

/-- Registering a waiter does not concern the write half. -/
theorem wrote_register {event : String} {id : Nat} (h : c.register event = .ok (id, c')) :
    Wrote [] c.turns c c' ∧ c.status = .open := by
  unfold register at h
  cases hregister : c.exchange.register event with
  | error failure =>
    rw [hregister] at h
    cases h
  | ok y =>
    rw [hregister] at h
    cases h
    exact ⟨⟨(List.append_nil _).symm, rfl, rfl⟩, (Exchange.status_register hregister).1⟩

theorem wrote_registerError {event : String} {error : Option Nat}
    (h : c.registerError event = .ok (error, c')) : Wrote [] c.turns c c' := by
  unfold registerError at h
  split at h
  · cases h
    exact wrote_nothing c
  · cases hregister : c.register Envelope.errorEvent with
    | error failure =>
      rw [hregister] at h
      cases h
    | ok r =>
      rw [hregister] at h
      cases h
      exact (wrote_register hregister).1

/-- Whoever has registered and queues for the write half, is polled. -/
theorem asks_of_beginSend {event : String} {payload : Payload} {call : Call} (now : Nat)
    (hopen : c.status = .open) (h : Wrote [] c.turns c c')
    (hbegin : c'.beginSend event payload = .ok (s, c'')) (hcall : call.sending? = some s)
    (hturn : call.turn? = some s.turn) : Asks (textOf event payload) c now (call.poll c'' now) := by
  obtain ⟨-, hnumber, htext, rfl⟩ := beginSend_cases hbegin
  refine .polled call ?_ ?_ (fun _ => hopen) ?_ ?_ ?_
  · rw [hturn, hnumber, h.nextTurn]
  · rw [Call.left, hcall]
    exact htext
  · simpa using h.unread
  · rw [h.turns, h.nextTurn]
  · rw [h.nextTurn]

variable (c : Connection) (now : Nat)

theorem asks_send (event : String) (payload : Payload) :
    Asks (textOf event payload) c now (c.send now event payload) := by
  unfold send
  cases hbegin : c.beginSend event payload with
  | error failure => exact .refused failure (wrote_nothing c)
  | ok r =>
    exact asks_of_beginSend now (beginSend_cases hbegin).1 (wrote_nothing c) hbegin rfl rfl

theorem asks_request (event : String) (payload : Payload) :
    Asks (textOf event payload) c now (c.request now event payload) := by
  unfold request
  cases hregister : c.register event with
  | error failure => exact .refused failure (wrote_nothing c)
  | ok r =>
    obtain ⟨hwrote, hopen⟩ := wrote_register hregister
    simp only
    cases hbegin : r.2.beginSend event payload with
    | error failure => exact .refused failure (hwrote.then_nothing (wrote_dropWaiters _ none _))
    | ok t => exact asks_of_beginSend now hopen hwrote hbegin rfl rfl

theorem asks_ask (event : String) (payload : Payload) (limit : Option Nat) :
    Asks (textOf event payload) c now (c.ask now event payload limit) := by
  unfold ask
  cases hregister : c.register event with
  | error failure => exact .refused failure (wrote_nothing c)
  | ok r =>
    obtain ⟨hwrote, hopen⟩ := wrote_register hregister
    simp only
    cases herror : r.2.registerError event with
    | error failure => exact .refused failure (hwrote.then_nothing (wrote_dropWaiters _ none _))
    | ok q =>
      have hboth := hwrote.then_nothing (wrote_registerError herror)
      simp only
      cases hbegin : q.2.beginSend event payload with
      | error failure => exact .refused failure (hboth.then_nothing (wrote_dropWaiters _ _ _))
      | ok t => exact asks_of_beginSend now hopen hboth hbegin rfl rfl

/-- A close asks for the write half, but has nothing to write. -/
theorem asks_close : Asks [] c now (c.close now) :=
  .polled (.close c.nextTurn) rfl rfl (fun h => absurd rfl h) rfl rfl rfl

end Connection

end EnvelopeClient
