import EnvelopeClient.Proofs.Connection.Departure

/-!
# Waiting up to a deadline

At a poll all that counts is what has been given and what time it is, in this order. What is there
wins over a deadline that has passed; a call whose time is up is told so only if there is nothing,
and leaves (`Connection.KeepsTime`). Nobody else is ever told that the time is up: it is not what
messages, closes or failing transports say.
-/

namespace EnvelopeClient

/-- What polling a call comes to that ends with an answer, once there is one. -/
def Poll.answering (call : Call) : Option Reply → Poll
  | none => .pending call
  | some r => .finished (.reply r)

namespace Connection

open Exchange

variable {c : Connection} {waiter reply now : Nat} {error : Option Nat} {event : String}

/-! ### What there is -/

theorem outcome?_eq_none {id : Nat} :
    c.outcome? id = none ↔ c.isGone = false ∧ c.exchange.outcome? id = none := by
  rw [outcome?]
  cases c.exchange.outcome? id <;> simp

/-- Nobody is given the end of a deadline. -/
theorem ne_timeout_of_outcome? (hproper : c.exchange.Proper) {id : Nat} {r : Reply}
    (hr : c.outcome? id = some r) (text : String) : r ≠ .error (.timeout text) := by
  rintro rfl
  rw [outcome?] at hr
  cases hgiven : c.exchange.outcome? id with
  | none =>
    rw [hgiven] at hr
    cases hgone : c.isGone <;> simp [hgone, droppedFailure] at hr
  | some r =>
    rw [hgiven] at hr
    cases hr
    rcases hproper id _ hgiven with ⟨v, heq⟩ | ⟨reason, heq⟩ <;> cases heq

theorem pollReceive_of_none (hnone : c.outcome? waiter = none) (now : Nat) (d : Deadline)
    (keeps : Bool) :
    Call.pollReceive c now waiter (some d) keeps =
      if d.time ≤ now then
        (.failed (Deadline.failure (c.exchange.eventOf waiter) d.limit), c.dropWaiter waiter)
      else (.pending (.receive waiter (some d) keeps), c) := by
  rw [Call.pollReceive, hnone]
  by_cases hpast : d.time ≤ now <;> simp [Call.isPast, Option.filter, hpast]

theorem pollHear_of_verdict {r : Reply}
    (hverdict : Call.verdict? (c.outcome? reply) (error.bind c.outcome?) = some r) (now : Nat)
    (event : String) (deadline : Option Deadline) :
    Call.pollHear c now event reply error deadline =
      (.finished (.reply r), (c.dropWaiter? error).dropWaiter reply) := by
  rw [Call.pollHear, hverdict]

theorem pollHear_of_none (hnone : Call.verdict? (c.outcome? reply) (error.bind c.outcome?) = none)
    (now : Nat) (event : String) (d : Deadline) :
    Call.pollHear c now event reply error (some d) =
      if d.time ≤ now then
        (.failed (Deadline.failure event d.limit), (c.dropWaiter? error).dropWaiter reply)
      else (.pending (.hear event reply error (some d)), c) := by
  rw [Call.pollHear, hnone]
  by_cases hpast : d.time ≤ now <;> simp [Call.isPast, Option.filter, hpast]

/-- A client's request has no answer exactly if neither of its waiters has been given anything: one
that listens for error messages fails together with the other. -/
theorem verdict?_eq_none_iff (hsound : c.exchange.Sound) (hfails : c.exchange.FailsClosed)
    (hgone : c.isGone = false) (hheld : c.exchange.isHeld reply = true) :
    Call.verdict? (c.outcome? reply) (error.bind c.outcome?) = none ↔
      ∀ id ∈ reply :: error.toList, c.outcome? id = none := by
  constructor
  · intro hnone
    obtain ⟨hreply, hdata⟩ := Call.verdict?_eq_none hnone
    intro id hid
    rcases List.mem_cons.mp hid with rfl | hid
    · exact hreply
    · have herror : error = some id := by simpa using hid
      rw [herror, Option.bind_some] at hdata
      cases hgiven : c.outcome? id with
      | none => rfl
      | some r =>
        cases r with
        | ok data => exact absurd hgiven (hdata data)
        | error failure =>
          -- behind a close nobody waits, so the other one has failed as well
          rw [outcome?_of_not_gone hgone] at hgiven hreply
          have hclosed := hfails id failure hgiven
          have hwaiting := isWaiting_of_closed hsound hclosed reply
          simp [isWaiting_eq, hheld, hreply] at hwaiting
  · intro hnone
    rw [hnone reply List.mem_cons_self]
    cases error with
    | none => rfl
    | some id =>
      rw [Option.bind_some, hnone id (by simp)]
      rfl

/-- A verdict is never the end of a deadline. -/
theorem ne_timeout_of_verdict? (hproper : c.exchange.Proper) {r : Reply}
    (hverdict : Call.verdict? (c.outcome? reply) (error.bind c.outcome?) = some r) (text : String) :
    r ≠ .error (.timeout text) := by
  rcases Call.verdict?_eq_some hverdict with ⟨data, -, rfl⟩ | ⟨hreply, -⟩
  · intro heq
    cases heq
  · exact ne_timeout_of_outcome? hproper hreply text

/-! ### Who is told that the time is up -/

section

variable {c' : Connection} {deadline : Option Deadline} {limit : Option Nat} {text : String}
  {s : Sending} {failure : Failure}

/-- Whose time is up has a deadline that has passed. -/
theorem past_of_isPast {d : Deadline} (h : Call.isPast deadline now = some d) :
    deadline = some d ∧ d.time ≤ now := by
  simpa [Call.isPast, Option.filter_eq_some_iff] using h

theorem past_of_pollReceive (hproper : c.exchange.Proper)
    (h : (Call.pollReceive c now waiter deadline keeps).1 = .failed (.timeout text)) :
    ∃ d, deadline = some d ∧ d.time ≤ now := by
  rw [Call.pollReceive] at h
  cases hgiven : c.outcome? waiter with
  | some r =>
    rw [hgiven] at h
    cases h
    exact absurd rfl (ne_timeout_of_outcome? hproper hgiven text)
  | none =>
    rw [hgiven] at h
    cases hpast : Call.isPast deadline now with
    | none =>
      rw [hpast] at h
      cases h
    | some d => exact ⟨d, past_of_isPast hpast⟩

theorem past_of_pollHear (hproper : c.exchange.Proper)
    (h : (Call.pollHear c now event reply error deadline).1 = .failed (.timeout text)) :
    ∃ d, deadline = some d ∧ d.time ≤ now := by
  rw [Call.pollHear] at h
  cases hverdict : Call.verdict? (c.outcome? reply) (error.bind c.outcome?) with
  | some r =>
    rw [hverdict] at h
    cases h
    exact absurd rfl (ne_timeout_of_verdict? hproper hverdict text)
  | none =>
    rw [hverdict] at h
    cases hpast : Call.isPast deadline now with
    | none =>
      rw [hpast] at h
      cases h
    | some d => exact ⟨d, past_of_isPast hpast⟩

theorem ne_timeout_of_fault (fault : IoFault) : fault.toFailure ≠ .timeout text := by
  rw [IoFault.toFailure]
  split <;> simp

/-- Sending fails for what the transport says, and that is never the time. -/
theorem ne_timeout_of_pollSend (h : (c.pollSend s).1 = .finished (.error failure)) :
    failure ≠ .timeout text := by
  have hsends := sends_pollSend c s
  generalize c.pollSend s = r at h hsends
  cases hsends with
  | waits | sent => cases h
  | fails outbound fault =>
    obtain rfl : fault.toFailure = failure := by simpa [endWrite, failWrite] using h
    exact ne_timeout_of_fault fault

/-- No request is told so before its message is sent, nor at the poll that sends it. -/
theorem ne_timeout_of_poll_ask (hsound : c.exchange.Sound) (hproper : c.exchange.Proper)
    (hlimit : ∀ ms ∈ limit, 0 < ms) :
    ((Call.ask reply error s limit).poll c now).1 ≠ .failed (.timeout text) := by
  intro h
  rw [Call.poll] at h
  have hchanges := changes_pollSend c s
  cases hsend : c.pollSend s with
  | mk result c' =>
    rw [hsend] at h hchanges
    cases result with
    | pending s' => cases h
    | finished result =>
      cases result with
      | error failure =>
        cases h
        exact ne_timeout_of_pollSend (by rw [hsend]) rfl
      | ok _ =>
        have hevolves : Evolves peerWentAway [] c.exchange c'.exchange := hchanges.exchange.evolves
        have hproper' := hevolves.proper hsound hproper
        obtain ⟨d, hdeadline, hpast⟩ := past_of_pollHear hproper' h
        obtain ⟨ms, hms, rfl⟩ := Option.map_eq_some_iff.mp hdeadline
        have hpos := hlimit ms hms
        have htime : now + ms ≤ now := hpast
        omega

theorem ne_timeout_of_ask (hsound : c.exchange.Sound) (hproper : c.exchange.Proper)
    (hlimit : ∀ ms ∈ limit, 0 < ms) {payload : Payload} :
    (c.ask now event payload limit).1 ≠ .failed (.timeout text) := by
  intro h
  have hbegins := begins_to_ask c now event payload limit
  generalize c.ask now event payload limit = r at h hbegins
  cases hbegins with
  | failed failure _ _ _ hfailure =>
    cases h
    exact hfailure text rfl
  | @polled c' reply error s hregisters _ _ =>
    -- the waiters it registers are given nothing by that
    have hevolves : Evolves "" [] c.exchange c'.exchange :=
      hregisters.exchange.then_evolves (.refl _)
    exact ne_timeout_of_poll_ask (hevolves.sound hsound) (hevolves.proper hsound hproper) hlimit h

end

/-! ### Keeping to a deadline -/

/-- What a poll comes to of a call that waits for what its waiters are given, but only up to a
deadline. The verdict is what they have been given comes to, the answer is how the call ends, if it
does, and `y` is the exchange behind the poll. -/
structure KeepsTime (c : Connection) (ids : List Nat) (verdict : Option Reply) (past : Prop)
    (timeout : Failure) (answer : Option Reply) (y : Exchange) : Prop where
  /-- The time is up only if nobody has been given anything. -/
  timesOut : (∃ text, answer = some (.error (.timeout text))) ↔
    past ∧ ∀ id ∈ ids, c.outcome? id = none
  /-- What has been given wins, whatever the time is. -/
  given : ∀ id ∈ ids, c.outcome? id ≠ none → verdict ≠ none ∧ answer = verdict
  early : (∀ id ∈ ids, c.outcome? id = none) → ¬past → answer = none
  /-- Whoever gives up takes nothing along. -/
  late : (∀ id ∈ ids, c.outcome? id = none) → past →
    answer = some (.error timeout) ∧ c.exchange.Withdraws ids y

section

variable {ids : List Nat} {verdict answer : Option Reply} {past : Prop} {timeout : Failure}
  {r : Reply} {y : Exchange}

theorem KeepsTime.of_given {id : Nat} (hid : id ∈ ids) (hgiven : c.outcome? id ≠ none)
    (hverdict : verdict = some r) (hr : ∀ text, r ≠ .error (.timeout text)) :
    c.KeepsTime ids verdict past timeout (some r) y where
  timesOut := by
    constructor
    · rintro ⟨text, heq⟩
      exact absurd (Option.some.inj heq) (hr text)
    · rintro ⟨-, hnone⟩
      exact absurd (hnone id hid) hgiven
  given _ _ _ := ⟨by simp [hverdict], hverdict.symm⟩
  early hnone := absurd (hnone id hid) hgiven
  late hnone := absurd (hnone id hid) hgiven

theorem KeepsTime.of_early (hnone : ∀ id ∈ ids, c.outcome? id = none) (hpast : ¬past) :
    c.KeepsTime ids verdict past timeout none y where
  timesOut := by simp [hpast]
  given id hid hgiven := absurd (hnone id hid) hgiven
  early _ _ := rfl
  late _ h := absurd h hpast

theorem KeepsTime.of_late {text : String} (hnone : ∀ id ∈ ids, c.outcome? id = none) (hpast : past)
    (hwithdraws : c.exchange.Withdraws ids y) :
    c.KeepsTime ids verdict past (.timeout text) (some (.error (.timeout text))) y where
  timesOut := ⟨fun _ => ⟨hpast, hnone⟩, fun _ => ⟨text, rfl⟩⟩
  given id hid hgiven := absurd (hnone id hid) hgiven
  early _ h := absurd hpast h
  late _ _ := ⟨rfl, hwithdraws⟩

/-- Of a call that goes on nothing is said but that it does. -/
theorem KeepsTime.of_none (h : c.KeepsTime ids verdict past timeout none y) (z : Exchange) :
    c.KeepsTime ids verdict past timeout none z where
  timesOut := h.timesOut
  given := h.given
  early := h.early
  late hnone hpast := by cases (h.late hnone hpast).1

end

/-- What polling a wait for a message comes to. If the time is up, its waiter has left with nothing. -/
theorem keepsTime_pollReceive (hproper : c.exchange.Proper)
    (hheld : c.isGone = false → c.exchange.isHeld waiter = true) (now : Nat) (d : Deadline)
    (keeps : Bool) :
    let result := Call.pollReceive c now waiter (some d) keeps
    ∃ answer, result.1 = Poll.answering (.receive waiter (some d) keeps) answer ∧
      c.KeepsTime [waiter] (c.outcome? waiter) (d.time ≤ now)
        (Deadline.failure (c.exchange.eventOf waiter) d.limit) answer result.2.exchange ∧
      ((∃ text, answer = some (.error (.timeout text))) → Departed [waiter] result.2.exchange) := by
  cases hgiven : c.outcome? waiter with
  | some r =>
    have hnever := ne_timeout_of_outcome? hproper hgiven
    rw [pollReceive_of_outcome? hgiven]
    refine ⟨some r, rfl, .of_given List.mem_cons_self (by simp [hgiven]) rfl hnever, ?_⟩
    rintro ⟨text, heq⟩
    exact absurd (Option.some.inj heq) (hnever text)
  | none =>
    have hnobody : ∀ id ∈ [waiter], c.outcome? id = none := by simpa using hgiven
    rw [pollReceive_of_none hgiven]
    by_cases hpast : d.time ≤ now
    · rw [if_pos hpast]
      refine ⟨some _, rfl, .of_late hnobody hpast (withdraws_cancel _ waiter), ?_⟩
      rintro -
      obtain ⟨hgone, hnothing⟩ := outcome?_eq_none.mp hgiven
      exact departed_dropWaiter (hheld hgone) hnothing
    · rw [if_neg hpast]
      exact ⟨none, rfl, .of_early hnobody hpast, by simp⟩

/-- What polling a request for its answer comes to. If the time is up, both its waiters have left
with nothing. -/
theorem keepsTime_pollHear (hsound : c.exchange.Sound) (hproper : c.exchange.Proper)
    (hfails : c.exchange.FailsClosed) (hgone : c.isGone = false)
    (hheld : ∀ id ∈ reply :: error.toList, c.exchange.isHeld id = true) (now : Nat) (event : String)
    (d : Deadline) :
    let result := Call.pollHear c now event reply error (some d)
    ∃ answer, result.1 = Poll.answering (.hear event reply error (some d)) answer ∧
      c.KeepsTime (reply :: error.toList) (Call.verdict? (c.outcome? reply) (error.bind c.outcome?))
        (d.time ≤ now) (Deadline.failure event d.limit) answer result.2.exchange ∧
      ((∃ text, answer = some (.error (.timeout text))) →
        Departed (reply :: error.toList) result.2.exchange) := by
  have hnone : Call.verdict? (c.outcome? reply) (error.bind c.outcome?) = none ↔ _ :=
    verdict?_eq_none_iff hsound hfails hgone (hheld reply List.mem_cons_self)
  cases hverdict : Call.verdict? (c.outcome? reply) (error.bind c.outcome?) with
  | some r =>
    have hsome : ¬∀ id ∈ reply :: error.toList, c.outcome? id = none := by
      rw [← hnone, hverdict]
      simp
    obtain ⟨id, hid, hgiven⟩ : ∃ id ∈ reply :: error.toList, c.outcome? id ≠ none := by
      simpa only [Classical.not_forall, exists_prop] using hsome
    rw [pollHear_of_verdict hverdict]
    refine ⟨some r, rfl, .of_given hid hgiven rfl (ne_timeout_of_verdict? hproper hverdict), ?_⟩
    rintro ⟨text, heq⟩
    exact absurd (Option.some.inj heq) (ne_timeout_of_verdict? hproper hverdict text)
  | none =>
    have hnobody := hnone.mp hverdict
    rw [pollHear_of_none hverdict]
    by_cases hpast : d.time ≤ now
    · rw [if_pos hpast]
      refine ⟨some _, rfl, .of_late hnobody hpast (withdraws_dropWaiters c error reply), ?_⟩
      rintro -
      refine departed_dropWaiters hheld ?_
      intro id hid
      exact (outcome?_eq_none.mp (hnobody id hid)).2
    · rw [if_neg hpast]
      exact ⟨none, rfl, .of_early hnobody hpast, by simp⟩

end Connection

end EnvelopeClient
