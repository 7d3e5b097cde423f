import EnvelopeClient.Proofs.Connection.Reading
import EnvelopeClient.Proofs.Writers.Caller

/-!
# Writes that come to nothing

What a write that fails does to the state of a connection is told from the failure alone: one that
says the peer is gone closes the connection, and any other leaves it as it is
(`status_of_poll_failed`). Once the peer reads no more, no call writes anything (`Mute`).
-/

namespace EnvelopeClient

/-! ### When nothing arrives any more -/

namespace Outbound

/-- Nothing that is written arrives any more. -/
def IsGone (p : Outbound) : Prop := p.ended = true ∨ p.abandoned = true

variable {p : Outbound}

theorem fill_of_gone (hgone : p.IsGone) (bytes : List UInt8) : (p.fill bytes).2 = p := by
  unfold fill
  split
  · rfl
  · rw [if_pos (by simpa [IsGone] using hgone)]

/-- Then nothing is written, whatever trap is laid. -/
theorem write_of_gone (hgone : p.IsGone) (bytes : List UInt8) :
    (p.write bytes).2.unread = p.unread ∧ (p.write bytes).2.IsGone := by
  unfold write
  split
  · exact ⟨rfl, hgone⟩
  · cases htrap : p.writeTrap with
    | none =>
      simp only [fill_of_gone hgone]
      exact ⟨trivial, hgone⟩
    | some trap =>
      cases trap with
      | zero => exact ⟨rfl, hgone⟩
      | fails fault =>
        have hsame : Outbound.IsGone { p with writeTrap := none } := hgone
        simp only
        split
        · rw [fill_of_gone hsame]
          exact ⟨rfl, hsame⟩
        · exact ⟨rfl, hsame⟩

theorem isGone_flush (hgone : p.IsGone) : p.flush.2.IsGone := by
  unfold flush
  split <;> exact hgone

theorem isGone_shutdown (hgone : p.IsGone) : p.shutdown.2.IsGone := by
  unfold shutdown
  split
  · exact hgone
  · exact .inl rfl

end Outbound

namespace Connection

/-- Nothing was written, and nothing will arrive. -/
structure Mute (c c' : Connection) : Prop where
  unread : c'.outbound.unread = c.outbound.unread
  gone : c'.outbound.IsGone

variable {c c' c'' : Connection} {s : Sending}

theorem Mute.of_outbound (hgone : c.outbound.IsGone) (h : c'.outbound = c.outbound) :
    Mute c c' := by
  refine ⟨by rw [h], ?_⟩
  rwa [h]

theorem Mute.then_outbound (h : Mute c c') (h' : c''.outbound = c'.outbound) : Mute c c'' := by
  have hgone := h.gone
  rw [← h'] at hgone
  exact ⟨by rw [h', h.unread], hgone⟩

theorem Mute.added (h : Mute c c') : c.added c' = [] := by
  rw [Connection.added, h.unread, List.drop_length]

/-! ### Calls that do not write -/

theorem outbound_dropWaiters (c : Connection) (error : Option Nat) (reply : Nat) :
    ((c.dropWaiter? error).dropWaiter reply).outbound = c.outbound := by
  cases error <;> rfl

theorem outbound_pollReceive (c : Connection) (now waiter : Nat) (deadline : Option Deadline)
    (keeps : Bool) : (Call.pollReceive c now waiter deadline keeps).2.outbound = c.outbound := by
  unfold Call.pollReceive
  split
  · rfl
  · split <;> rfl

theorem outbound_pollHear (c : Connection) (now : Nat) (event : String) (reply : Nat)
    (error : Option Nat) (deadline : Option Deadline) :
    (Call.pollHear c now event reply error deadline).2.outbound = c.outbound := by
  unfold Call.pollHear
  split
  · exact outbound_dropWaiters c error reply
  · split
    · exact outbound_dropWaiters c error reply
    · rfl

theorem outbound_drop (call : Call) (c : Connection) : (call.drop c).outbound = c.outbound := by
  cases call with
  | ask reply error s limit => exact outbound_dropWaiters (c.leaveTurns s.turn) error reply
  | hear event reply error deadline => exact outbound_dropWaiters c error reply
  | _ => rfl

theorem outbound_register {event : String} {id : Nat} (h : c.register event = .ok (id, c')) :
    c'.outbound = c.outbound := by
  unfold register at h
  split at h
  · cases h
    rfl
  · cases h

theorem outbound_registerError {event : String} {error : Option Nat}
    (h : c.registerError event = .ok (error, c')) : c'.outbound = c.outbound := by
  unfold registerError at h
  split at h
  · cases h
    rfl
  · split at h
    · next hregister =>
      cases h
      exact outbound_register hregister
    · cases h

theorem outbound_beginSend {event : String} {payload : Payload}
    (h : c.beginSend event payload = .ok (s, c')) : c'.outbound = c.outbound := by
  obtain ⟨-, -, -, rfl⟩ := beginSend_cases h
  rfl

theorem outbound_endWrite (c : Connection) (turn : Nat) (fault : IoFault) :
    (c.endWrite turn fault).2.outbound = c.outbound := by
  unfold endWrite failWrite
  by_cases hgone : fault.toFailure.isNotConnected
  · simp only [if_pos hgone]
    rfl
  · simp only [if_neg hgone]
    rfl

/-! ### Calls that would write -/

theorem mute_pollSend (hgone : c.outbound.IsGone) (s : Sending) : Mute c (c.pollSend s).2 := by
  unfold pollSend
  split
  · obtain ⟨hunread, hgone'⟩ := Outbound.write_of_gone hgone s.left
    cases hwrite : c.outbound.write s.left with
    | mk result outbound =>
      rw [hwrite] at hunread hgone'
      have hmute : Mute c { c with outbound } := ⟨hunread, hgone'⟩
      cases result with
      | blocked left => exact hmute
      | failed fault => exact hmute.then_outbound (outbound_endWrite _ _ _)
      | done =>
        have hflushed : Mute c { c with outbound := outbound.flush.2 } :=
          ⟨(Outbound.unread_flush outbound).trans hunread, Outbound.isGone_flush hgone'⟩
        cases hflush : outbound.flush with
        | mk fault? flushed =>
          rw [hflush] at hflushed
          cases fault? with
          | none =>
            simp only [hflush]
            exact hflushed.then_outbound rfl
          | some fault =>
            simp only [hflush]
            exact hflushed.then_outbound (outbound_endWrite _ _ _)
  · exact .of_outbound hgone rfl

/-- A call that has a message to write writes nothing else. -/
theorem outbound_poll {call : Call} (hcall : call.sending? = some s) (c : Connection) (now : Nat) :
    (call.poll c now).2.outbound = (c.pollSend s).2.outbound := by
  cases call with
  | receive waiter deadline keeps => cases hcall
  | hear event reply error deadline => cases hcall
  | close turn => cases hcall
  | send s =>
    cases hcall
    rw [Call.poll]
    split <;> next hsend => rw [hsend]
  | request waiter s =>
    cases hcall
    rw [Call.poll]
    split
    · next hsend => rw [hsend]
    · next hsend => rw [hsend, outbound_pollReceive]
    · next hsend =>
      rw [hsend]
      rfl
  | ask reply error s limit =>
    cases hcall
    rw [Call.poll]
    split
    · next hsend => rw [hsend]
    · next hsend => rw [hsend, outbound_pollHear]
    · next hsend => rw [hsend, outbound_dropWaiters]

/-- Once nothing arrives, no poll writes. -/
theorem mute_poll (hgone : c.outbound.IsGone) (call : Call) (now : Nat) :
    Mute c (call.poll c now).2 := by
  cases hcall : call.sending? with
  | some s => exact (mute_pollSend hgone s).then_outbound (outbound_poll hcall c now)
  | none =>
    cases call with
    | receive waiter deadline keeps => exact .of_outbound hgone (outbound_pollReceive _ _ _ _ _)
    | hear event reply error deadline => exact .of_outbound hgone (outbound_pollHear _ _ _ _ _ _)
    | close turn =>
      rw [Call.poll]
      split
      · exact ⟨Outbound.unread_shutdown c.outbound, Outbound.isGone_shutdown hgone⟩
      · exact .of_outbound hgone rfl
    | send _ | request _ _ | ask _ _ _ _ => cases hcall

/-- Nobody who comes then writes. -/
theorem mute_begin (hgone : c.outbound.IsGone) (errand : Errand) (now : Nat) :
    Mute c (errand.begin c now).2 := by
  have hpoll : ∀ {c' : Connection} (call : Call), c'.outbound = c.outbound →
      Mute c (call.poll c' now).2 := by
    intro c' call hsame
    have hmute := mute_poll (hsame ▸ hgone : c'.outbound.IsGone) call now
    exact ⟨by rw [hmute.unread, hsame], hmute.gone⟩
  cases errand with
  | send event payload =>
    show Mute c (c.send now event payload).2
    unfold send
    split
    · exact .of_outbound hgone rfl
    · next hbegin => exact hpoll _ (outbound_beginSend hbegin)
  | request event payload =>
    show Mute c (c.request now event payload).2
    unfold request
    split
    · exact .of_outbound hgone rfl
    · next hregister =>
      have hregistered := outbound_register hregister
      split
      · exact .of_outbound hgone hregistered
      · next hbegin => exact hpoll _ ((outbound_beginSend hbegin).trans hregistered)
  | ask event payload limit =>
    show Mute c (c.ask now event payload limit).2
    unfold ask
    split
    · exact .of_outbound hgone rfl
    · next hregister =>
      have hregistered := outbound_register hregister
      split
      · exact .of_outbound hgone hregistered
      · next herror =>
        have hboth := (outbound_registerError herror).trans hregistered
        split
        · exact .of_outbound hgone ((outbound_dropWaiters _ _ _).trans hboth)
        · next hbegin => exact hpoll _ ((outbound_beginSend hbegin).trans hboth)
  | close => exact hpoll (.close c.nextTurn) rfl

/-- What happens without a caller brings nothing back. -/
theorem isGone_befall (hgone : c.outbound.IsGone) (what : Incident) :
    (c.befall what).outbound.IsGone := by
  cases what with
  | peerReads count | peerWrites bytes | peerEnds | abort => exact hgone
  | peerAbandons => exact .inr rfl
  | trap operation trap => cases operation <;> exact hgone
  | reader =>
    rw [befall]
    cases hstep : c.readerStep with
    | none => exact hgone
    | some c' =>
      obtain ⟨r, -, hreads⟩ := reads_readerStep hstep
      rw [Option.getD_some, hreads.outbound.1]
      exact hgone

/-! ### What a failure does to the state -/

variable {failure : Failure}

theorem status_endWrite (c : Connection) (turn : Nat) (fault : IoFault) :
    (c.endWrite turn fault).2.status =
      if fault.toFailure.isNotConnected then .closed else c.status := by
  unfold endWrite failWrite
  by_cases hgone : fault.toFailure.isNotConnected
  · simp only [if_pos hgone]
    rfl
  · simp only [if_neg hgone]
    rfl

/-- Sending that fails closes the connection exactly if the failure says that the peer is gone. -/
theorem status_of_pollSend_failed (h : c.pollSend s = (.finished (.error failure), c')) :
    c'.status = if failure.isNotConnected then .closed else c.status := by
  have hsends := sends_pollSend c s
  rw [h] at hsends
  generalize hresult : (SendPoll.finished (.error failure), c') = r at hsends
  cases hsends with
  | waits | sent => cases hresult
  | fails outbound fault =>
    have hstatus := status_endWrite { c with outbound } s.turn fault
    have hfailure : (endWrite { c with outbound } s.turn fault).1 =
      .finished (.error fault.toFailure) := rfl
    rw [← hresult] at hstatus hfailure
    cases hfailure
    exact hstatus

/-- Sending that succeeds has written all that was left. -/
theorem added_of_pollSend_ok (h : c.pollSend s = (.finished (.ok ()), c')) :
    c.added c' = s.left := by
  by_cases hturn : c.turns.head? = some s.turn
  · obtain ⟨more, left, hleft, hcase⟩ := pollSend_in_turn hturn
    rw [h] at hcase
    rcases hcase with ⟨hpending, -⟩ | ⟨result, hresult, hok, hwrote⟩
    · cases hpending
    · cases hresult
      rw [hwrote.added, hleft, hok rfl, List.append_nil]
  · rw [pollSend_of_other hturn] at h
    cases h

theorem status_dropWaiters (c : Connection) (error : Option Nat) (reply : Nat) :
    ((c.dropWaiter? error).dropWaiter reply).status = c.status :=
  (changes_dropWaiters c error reply).exchange.keeps.status

/-- A call goes on waiting as long as its message does. -/
theorem poll_of_send_pending {call : Call} {s' : Sending} (hcall : call.sending? = some s)
    (hsend : c.pollSend s = (.pending s', c')) (now : Nat) :
    ∃ call', (call.poll c now).1 = .pending call' := by
  cases call with
  | send s =>
    cases hcall
    exact ⟨.send s', by simp only [Call.poll, hsend]⟩
  | request waiter s =>
    cases hcall
    exact ⟨.request waiter s', by simp only [Call.poll, hsend]⟩
  | ask reply error s limit =>
    cases hcall
    exact ⟨.ask reply error s' limit, by simp only [Call.poll, hsend]⟩
  | receive _ _ _ | hear _ _ _ _ | close _ => cases hcall

/-- A call whose message fails, fails with it. -/
theorem poll_of_send_failed {call : Call} (hcall : call.sending? = some s)
    (hsend : c.pollSend s = (.finished (.error failure), c')) (now : Nat) :
    (call.poll c now).1 = .failed failure ∧ (call.poll c now).2.status = c'.status := by
  cases call with
  | send s =>
    cases hcall
    have hpoll : Call.poll (.send s) c now = (.failed failure, c') := by
      simp only [Call.poll, hsend]
    rw [hpoll]
    exact ⟨rfl, rfl⟩
  | request waiter s =>
    cases hcall
    have hpoll : Call.poll (.request waiter s) c now = (.failed failure, c'.dropWaiter waiter) := by
      simp only [Call.poll, hsend]
    rw [hpoll]
    exact ⟨rfl, rfl⟩
  | ask reply error s limit =>
    cases hcall
    have hpoll : Call.poll (.ask reply error s limit) c now =
        (.failed failure, (c'.dropWaiter? error).dropWaiter reply) := by
      simp only [Call.poll, hsend]
    rw [hpoll]
    exact ⟨rfl, status_dropWaiters c' error reply⟩
  | receive _ _ _ | hear _ _ _ _ | close _ => cases hcall

/-- Where a poll fails, all that was left is written, or it is the message that fails. -/
theorem status_of_poll_failed {call : Call} {now : Nat}
    (h : (call.poll c now).1 = .failed failure) :
    c.added (call.poll c now).2 = call.left ∨
      (call.poll c now).2.status = if failure.isNotConnected then .closed else c.status := by
  have hsame : ∀ {c' : Connection}, c'.outbound = c.outbound → c.added c' = [] := by
    intro c' hsame
    rw [added, hsame, List.drop_length]
  cases hcall : call.sending? with
  | none =>
    left
    cases call with
    | receive waiter deadline keeps => exact hsame (outbound_pollReceive _ _ _ _ _)
    | hear event reply error deadline => exact hsame (outbound_pollHear _ _ _ _ _ _)
    | close turn =>
      rw [Call.poll] at h
      split at h <;> cases h
    | send _ | request _ _ | ask _ _ _ _ => cases hcall
  | some s =>
    have hleft : call.left = s.left := by rw [Call.left, hcall]; rfl
    have hout := outbound_poll hcall c now
    rw [added, hout, hleft]
    cases hsend : c.pollSend s with
    | mk result c' =>
      cases result with
      | pending s' =>
        obtain ⟨call', hpending⟩ := poll_of_send_pending hcall hsend now
        cases hpending.symm.trans h
      | finished result =>
        cases result with
        | ok _ => exact .inl (added_of_pollSend_ok hsend)
        | error failure' =>
          obtain ⟨hfailed, hstatus⟩ := poll_of_send_failed hcall hsend now
          cases hfailed.symm.trans h
          exact .inr (hstatus.trans (status_of_pollSend_failed hsend))

end Connection

end EnvelopeClient
