import EnvelopeClient.Proofs.Writers.Segments

/-!
# Sending on a connection that has closed

A message is refused if the connection is closed when it comes, and it stays refused
(`refused_once_closed`). The state is looked at before the message queues for the write half and not
again when its turn comes: whoever is in line when the connection closes sends as if it were open,
unless the peer is gone by then. `queued_send_succeeds` is a run in which it does.
-/

namespace EnvelopeClient

open Connection

/-- What an errand fails with if the connection is closed when it comes. -/
def Errand.refusal : Errand → Option Failure
  | .send event payload =>
    match payload.toValue with
    | .ok _ => some (.notConnected s!"cannot send '{event}' in state {Status.closed.name}")
    | .error fault =>
      some (.protocol s!"failed to serialize '{event}' payload: {fault.message}")
  | .request event _ | .ask event _ _ =>
    some (.notConnected s!"cannot await '{event}' in state {Status.closed.name}")
  | .close => none

theorem Exchange.register_of_closed {x : Exchange} (hclosed : x.status = .closed) (event : String) :
    x.register event = .error (.notConnected s!"cannot await '{event}' in state {Status.closed.name}") := by
  have hstatus : x.registry.status = .closed := hclosed
  simp [Exchange.register, Registry.register, hstatus]

/-- A closed connection refuses messages and requests, and nothing comes of them. -/
theorem Errand.begin_of_closed {errand : Errand} {failure : Failure} {c : Connection}
    (hclosed : c.status = .closed) (hrefusal : errand.refusal = some failure) (now : Nat) :
    errand.begin c now = (.failed failure, c) := by
  cases errand with
  | send event payload =>
    cases hvalue : payload.toValue with
    | ok data =>
      simp only [refusal, hvalue, Option.some.injEq] at hrefusal
      subst hrefusal
      simp [begin, Connection.send, beginSend, hvalue, hclosed]
    | error fault =>
      simp only [refusal, hvalue, Option.some.injEq] at hrefusal
      subst hrefusal
      simp [begin, Connection.send, beginSend, hvalue]
  | request event payload =>
    cases hrefusal
    simp [begin, Connection.request, Connection.register, Exchange.register_of_closed hclosed]
  | ask event payload limit =>
    cases hrefusal
    simp [begin, Connection.ask, Connection.register, Exchange.register_of_closed hclosed]
  | close => cases hrefusal

/-! ### When the peer is gone -/

namespace Connection

variable {c : Connection}

/-- Once the peer reads no more, a message whose turn comes fails, and nothing of it is written. -/
theorem pollSend_of_gone {s : Sending} (hturn : c.turns.head? = some s.turn) (hleft : s.left ≠ [])
    (htrap : c.outbound.writeTrap = none)
    (hgone : c.outbound.ended = true ∨ c.outbound.abandoned = true) :
    ∃ failure c', c.pollSend s = (.finished (.error failure), c') ∧
      failure.isNotConnected = true ∧ c'.outbound.unread = c.outbound.unread := by
  have hwrite : c.outbound.write s.left = (.failed (.ofKind .brokenPipe), c.outbound) := by
    rw [Outbound.write, htrap, if_neg (by simpa using hleft), Outbound.fill,
      if_neg (by simpa using hleft), if_pos (by simpa using hgone)]
  refine ⟨(IoFault.ofKind .brokenPipe).toFailure,
    (c.endWrite s.turn (.ofKind .brokenPipe)).2, ?_, rfl, ?_⟩
  · rw [pollSend, hasTurn, if_pos (by simpa using hturn), hwrite]
    rfl
  · rw [(wrote_endWrite c s.turn _).1.unread, List.append_nil]

theorem poll_of_gone {call : Call} {s : Sending} (hcall : call.sending? = some s)
    (hturn : c.turns.head? = some s.turn) (hleft : s.left ≠ [])
    (htrap : c.outbound.writeTrap = none)
    (hgone : c.outbound.ended = true ∨ c.outbound.abandoned = true) (now : Nat) :
    ∃ failure, (call.poll c now).1 = .failed failure ∧ failure.isNotConnected = true ∧
      (call.poll c now).2.outbound.unread = c.outbound.unread := by
  obtain ⟨failure, c', hsend, hnot, hunread⟩ := pollSend_of_gone hturn hleft htrap hgone
  have hsame : ∀ error reply, ((c'.dropWaiter? error).dropWaiter reply).outbound.unread =
      c.outbound.unread := by
    intro error reply
    rw [(wrote_dropWaiters c' error reply).unread, List.append_nil, hunread]
  cases call with
  | receive waiter deadline keeps => cases hcall
  | hear event reply error deadline => cases hcall
  | close turn => cases hcall
  | send s =>
    cases hcall
    rw [Call.poll, hsend]
    exact ⟨failure, rfl, hnot, hunread⟩
  | request waiter s =>
    cases hcall
    rw [Call.poll, hsend]
    exact ⟨failure, rfl, hnot, hsame none waiter⟩
  | ask reply error s limit =>
    cases hcall
    rw [Call.poll, hsend]
    exact ⟨failure, rfl, hnot, hsame error reply⟩

end Connection

/-- What becomes of a caller: its errand stays, and once its call has ended all of it does. -/
structure Caller.Becomes (caller caller' : Caller) : Prop where
  errand : caller'.errand = caller.errand
  ended : caller.call? = none → caller' = caller

theorem Caller.Becomes.refl (caller : Caller) : caller.Becomes caller := ⟨rfl, fun _ => rfl⟩

theorem Caller.Becomes.trans {a b c : Caller} (h : a.Becomes b) (h' : b.Becomes c) :
    a.Becomes c where
  errand := h'.errand.trans h.errand
  ended hended := by
    obtain rfl := h.ended hended
    exact h'.ended hended

namespace Writers

variable {w : Writers} {caller : Caller} {i : Nat}

/-! ### What becomes of callers -/

theorem exists_set_becomes {j : Nat} {other other' : Caller} {call : Call}
    (hi : w.callers[i]? = some caller) (hj : w.callers[j]? = some other)
    (hcall : other.call? = some call) (herrand : other'.errand = other.errand) :
    ∃ caller', (w.callers.set j other')[i]? = some caller' ∧ caller.Becomes caller' := by
  by_cases heq : j = i
  · subst heq
    obtain rfl : other = caller := Option.some.inj (hj.symm.trans hi)
    refine ⟨other', List.getElem?_set_self (List.getElem?_eq_some_iff.mp hi).1, herrand, ?_⟩
    intro hended
    rw [hcall] at hended
    cases hended
  · exact ⟨caller, by rw [List.getElem?_set_ne heq, hi], .refl caller⟩

theorem exists_step (hi : w.callers[i]? = some caller) (event : Event) :
    ∃ caller', (w.step event).callers[i]? = some caller' ∧ caller.Becomes caller' := by
  cases event with
  | begin now errand =>
    refine ⟨caller, ?_, .refl caller⟩
    exact (List.getElem?_append_left (List.getElem?_eq_some_iff.mp hi).1).trans hi
  | poll now j =>
    rcases step_poll_cases w now j with hsame | ⟨other, call, hj, hcall, hnext⟩
    · exact ⟨caller, by rw [hsame, hi], .refl caller⟩
    · rw [hnext]
      exact exists_set_becomes hi hj hcall rfl
  | drop j =>
    rcases step_drop_cases w j with hsame | ⟨other, call, hj, hcall, hnext⟩
    · exact ⟨caller, by rw [hsame, hi], .refl caller⟩
    · rw [hnext]
      exact exists_set_becomes hi hj hcall rfl
  | incident what => exact ⟨caller, hi, .refl caller⟩

theorem exists_run (hi : w.callers[i]? = some caller) (events : List Event) :
    ∃ caller', (w.run events).callers[i]? = some caller' ∧ caller.Becomes caller' := by
  induction events generalizing w caller with
  | nil => exact ⟨caller, hi, .refl caller⟩
  | cons event events ih =>
    obtain ⟨next, hnext, hbecomes⟩ := exists_step hi event
    obtain ⟨caller', hcaller', hbecomes'⟩ := ih hnext
    exact ⟨caller', hcaller', hbecomes.trans hbecomes'⟩

/-- Only an arrival adds a caller. -/
theorem length_step (w : Writers) (event : Event) :
    (w.step event).callers.length = w.callers.length ∨ ∃ now errand, event = .begin now errand := by
  cases event with
  | begin now errand => exact .inr ⟨now, errand, rfl⟩
  | poll now j =>
    rcases step_poll_cases w now j with hsame | ⟨other, call, hj, hcall, hnext⟩
    · exact .inl (by rw [hsame])
    · exact .inl (by rw [hnext]; exact List.length_set)
  | drop j =>
    rcases step_drop_cases w j with hsame | ⟨other, call, hj, hcall, hnext⟩
    · exact .inl (by rw [hsame])
    · exact .inl (by rw [hnext]; exact List.length_set)
  | incident what => exact .inl rfl

/-! ### Callers that come late -/

/-- Whoever wants to send and comes to a closed connection is refused, and stays so. -/
theorem refused_run (hinv : w.Inv) (hclosed : w.connection.status = .closed) (events : List Event)
    {failure : Failure} (hi : (w.run events).callers[i]? = some caller)
    (hlate : w.callers.length ≤ i) (hrefusal : caller.errand.refusal = some failure) :
    caller.wrote = [] ∧ caller.poll = some (.failed failure) := by
  induction events generalizing w with
  | nil =>
    have hlt : i < w.callers.length := (List.getElem?_eq_some_iff.mp hi).1
    omega
  | cons event events ih =>
    have hclosed' := (hinv.lasts_step event).closed hclosed
    by_cases hlate' : (w.step event).callers.length ≤ i
    · exact ih (hinv.step event) hclosed' hi hlate'
    · rcases length_step w event with hsame | ⟨now, errand, rfl⟩
      · omega
      · -- it is the one who has just come
        have hlength : (w.step (.begin now errand)).callers.length = w.callers.length + 1 := by
          simp [step]
        obtain rfl : i = w.callers.length := by omega
        have hcame : (w.step (.begin now errand)).callers[w.callers.length]? =
            some (.begun errand w.connection (errand.begin w.connection now)) := by
          simp [step]
        obtain ⟨caller', hcaller', hbecomes⟩ := exists_run hcame events
        obtain rfl : caller' = caller := Option.some.inj (hcaller'.symm.trans hi)
        have hrefusal' : errand.refusal = some failure := by
          rw [← hrefusal, hbecomes.errand]
          rfl
        have hbegin := Errand.begin_of_closed hclosed hrefusal' now
        rw [hbegin] at hbecomes
        rw [hbecomes.ended rfl]
        exact ⟨by simp [Caller.begun, added], rfl⟩

/-- Messages on a connection that has closed. Who comes then is refused. Who came before and neither
has had the write half nor is in line for it never writes and never succeeds. Who is in line fails in
its turn without writing anything if the peer reads no more by then. -/
theorem refused_once_closed (peer : String) (capacity : Option Nat) (events later : List Event) :
    let w := (start peer capacity).run events
    let w' := w.run later
    w.connection.status = .closed →
      (∀ (i : Nat) (caller : Caller) (failure : Failure), w'.callers[i]? = some caller →
        w.callers.length ≤ i → caller.errand.refusal = some failure →
          caller.wrote = [] ∧ caller.poll = some (.failed failure)) ∧
      (∀ (i : Nat) (before caller : Caller), w.callers[i]? = some before →
        w'.callers[i]? = some caller → w.hasObtained before = false →
        (∀ turn ∈ w.connection.turns, before.turn ≠ some turn) →
          caller.wrote = [] ∧ caller.succeeded = false) ∧
      ∀ (i : Nat) (caller : Caller) (call : Call) (s : Sending) (now : Nat),
        w'.callers[i]? = some caller → caller.call? = some call → call.sending? = some s →
        s.left ≠ [] → w'.connection.hasTurn s.turn = true →
        w'.connection.outbound.writeTrap = none →
        w'.connection.outbound.ended = true ∨ w'.connection.outbound.abandoned = true →
          ∃ caller' failure, (w'.step (.poll now i)).callers[i]? = some caller' ∧
            caller'.wrote = caller.wrote ∧ caller'.poll = some (.failed failure) ∧
            failure.isNotConnected = true := by
  intro w w' hclosed
  have hinv : w.Inv := (inv_start peer capacity).run events
  refine ⟨?_, ?_, ?_⟩
  · intro i caller failure hi hlate hrefusal
    exact refused_run hinv hclosed later hi hlate hrefusal
  · intro i before caller hbefore hi hnot haside
    have hmem := List.mem_of_getElem? hbefore
    have hstands := hinv.stands before hmem
    have hgranted : before.granted = false := (Bool.or_eq_false_iff.mp hnot).1
    -- a call that goes on has had its turn, or is in line
    have hended : before.call? = none := by
      cases hcall : before.call? with
      | none => rfl
      | some call =>
        cases hturn : call.turn? with
        | none => cases (hstands.sent call hcall hturn).symm.trans hgranted
        | some turn =>
          obtain ⟨hown, hin⟩ := hstands.inLine call turn hcall hturn
          exact absurd hown (haside turn hin)
    obtain ⟨caller', hcaller', hbecomes⟩ := exists_run hbefore later
    obtain rfl : caller' = caller := Option.some.inj (hcaller'.symm.trans hi)
    rw [hbecomes.ended hended]
    refine ⟨hstands.silent hgranted, ?_⟩
    cases hsucceeded : before.succeeded with
    | false => rfl
    | true => cases (hstands.done hsucceeded).symm.trans hgranted
  · intro i caller call s now hi hcall hsending hleft hturn htrap hgone
    have hhead : w'.connection.turns.head? = some s.turn := by simpa [hasTurn] using hturn
    obtain ⟨failure, hpoll, hnot, hunread⟩ :=
      poll_of_gone hsending hhead hleft htrap hgone now
    refine ⟨caller.polled w'.connection (call.poll w'.connection now), failure, ?_, ?_, ?_, hnot⟩
    · rw [step_poll hi hcall]
      exact List.getElem?_set_self (List.getElem?_eq_some_iff.mp hi).1
    · simp [Caller.polled, added, hunread]
    · exact congrArg some hpoll

/-- A message that does not fit into the pipe, one whose caller goes away while it queues behind it,
another that queues, and a close. -/
def queueing : List Event :=
  [.begin 0 (.send "a" (.int 1)), .begin 0 (.send "b" (.int 2)), .drop 1,
    .begin 0 (.send "c" (.int 3)), .begin 0 .close]

/-- A message comes behind the close, and the peer stops reading. -/
theorem refused_once_closed_each :
    let w' := ((start "peer" (some 11)).run queueing).run
      [.begin 0 (.send "d" (.int 4)), .incident .peerAbandons]
    (∃ caller, w'.callers[4]? = some caller ∧ caller.wrote = [] ∧
      caller.poll = some (.failed (.notConnected "cannot send 'd' in state Closed"))) ∧
    (∃ caller, w'.callers[1]? = some caller ∧ caller.wrote = [] ∧ caller.succeeded = false) ∧
    ∃ caller failure, (w'.step (.poll 0 0)).callers[0]? = some caller ∧
      caller.poll = some (.failed failure) ∧ failure.isNotConnected = true := by
  intro w'
  obtain ⟨hlate, haside, hgone⟩ := refused_once_closed "peer" (some 11) queueing
    [.begin 0 (.send "d" (.int 4)), .incident .peerAbandons] (by decide +kernel)
  refine ⟨?_, ?_, ?_⟩
  · exact ⟨_, rfl, hlate 4 _ _ rfl (by decide +kernel) rfl⟩
  · exact ⟨_, rfl, haside 1 _ _ rfl rfl (by decide +kernel) (by decide +kernel)⟩
  · obtain ⟨caller, failure, hi, -, hpoll, hnot⟩ := hgone 0 _ _ _ 0 rfl rfl rfl (by decide +kernel)
      (by decide +kernel) rfl (.inr rfl)
    exact ⟨caller, failure, hi, hpoll, hnot⟩

/-- A message that is in line when the connection closes is written in its turn, and succeeds. -/
theorem queued_send_succeeds :
    ¬∀ (peer : String) (capacity : Option Nat) (events later : List Event),
      let w := (start peer capacity).run events
      w.connection.status = .closed →
        ∀ (i : Nat) (before caller : Caller), w.callers[i]? = some before →
          before.errand.text ≠ [] → (w.run later).callers[i]? = some caller →
            w.hasObtained before = false → caller.wrote = [] ∧ caller.succeeded = false := by
  intro hclaim
  have hnone := hclaim "peer" (some 11) queueing
    [.incident (.peerReads 11), .poll 0 0, .incident (.peerReads 11), .poll 0 2,
      .incident (.peerReads 11), .poll 0 2] (by decide +kernel) 2 _ _ rfl (by decide +kernel) rfl
    (by decide +kernel)
  have hdone : (true : Bool) = false := hnone.2
  cases hdone

end Writers

end EnvelopeClient
