import EnvelopeClient.Proofs.Inquiry.Invariant

/-!
# An error message beats a hang-up

A peer that cannot answer a request sends an error message and may hang up at once. Whatever the
order in which the two are found out, a request whose waiter was given the error message is not told
that the connection closed (`error_beats_hang_up`). If it was given nothing at all it is, and is
never left waiting.
-/

namespace EnvelopeClient.Inquiry

open Exchange

variable {event : String} {reply error : Nat} {s : Inquiry} {c : Connection} {looks : Looks}
  {waiter? : Option Nat} {deadline : Option Deadline} {now : Nat}

/-! ### Looking for the answer -/

/-- An error message decides where there is no reply, whether or not the connection closed. -/
theorem Heeds.of_error (h : Heeds event reply error s now looks c waiter? deadline)
    {data : Json.Value} (hdata : s.connection.exchange.outcome? error = some (.ok data))
    (hnone : ∀ v, c.exchange.outcome? reply ≠ some (.ok v)) :
    (s.step (.poll now looks)).poll = .failed (.remote (remoteMessage data)) := by
  have hgiven := h.onward.outcome? hdata
  obtain ⟨hnext, honward⟩ := h.healthy.happened h.beforeError
  have hwaiter : waiter? = some error := by
    cases h.listening with
    | both herror => rfl
    | told hfailed =>
      rw [hgiven] at hfailed
      cases hfailed
  have hseen := hnext.seen_of_ok (honward.outcome? hgiven) looks.errorLate
  have hverdict : Call.verdict? (c.seen? looks.replyLate reply)
      (waiter?.bind ((c.happened looks.beforeError).seen? looks.errorLate)) =
      some (.error (.remote (remoteMessage data))) := by
    rw [hwaiter, Option.bind_some, hseen]
    cases hreply : c.seen? looks.replyLate reply with
    | none => rfl
    | some r =>
      cases r with
      | ok v => exact absurd (h.healthy.of_seen hreply) (hnone v)
      | error failure => rfl
  rw [h.step]
  simp only [Call.hearOver, hverdict]
  rfl

/-- The failure of the reply's waiter decides where there is no error message. -/
theorem Heeds.of_failed (h : Heeds event reply error s now looks c waiter? deadline)
    {failure : Failure} (hfailed : s.connection.exchange.outcome? reply = some (.error failure))
    (hclosed : s.connection.exchange.status = .closed)
    (hnone : ∀ data, s.connection.exchange.outcome? error ≠ some (.ok data))
    (hlate : looks.replyLate = false) :
    (s.step (.poll now looks)).poll = .failed failure := by
  obtain ⟨hnext, honward⟩ := h.healthy.happened h.beforeError
  have hseen : c.seen? looks.replyLate reply = some (.error failure) := by
    rw [hlate]
    exact h.healthy.seen_of_failed (h.onward.outcome? hfailed)
  have hsilent : ∀ data,
      waiter?.bind ((c.happened looks.beforeError).seen? looks.errorLate) ≠ some (.ok data) := by
    intro data hdata
    cases h.listening with
    | told hfailed => cases hdata
    | both herror =>
      have hgiven := hnext.of_seen hdata
      rw [(honward.closed (h.onward.closed hclosed).1).2, (h.onward.closed hclosed).2] at hgiven
      exact hnone data hgiven
  have hverdict : Call.verdict? (c.seen? looks.replyLate reply)
      (waiter?.bind ((c.happened looks.beforeError).seen? looks.errorLate)) =
      some (.error failure) := by
    rw [hseen]
    cases herror : waiter?.bind ((c.happened looks.beforeError).seen? looks.errorLate) with
    | none => rfl
    | some r =>
      cases r with
      | ok data => exact absurd herror (hsilent data)
      | error other => rfl
  rw [h.step]
  simp only [Call.hearOver, hverdict]
  rfl

/-! ### What waiters are told -/

/-- A waiter of a closed connection that was given no message was told so. -/
theorem Healthy.exists_reason (h : Healthy c) (hclosed : c.exchange.status = .closed) {id : Nat}
    (hheld : c.exchange.isHeld id = true) (hnone : ∀ v, c.exchange.outcome? id ≠ some (.ok v)) :
    ∃ reason, c.exchange.outcome? id =
      some (.error (closedFailure (c.exchange.eventOf id) reason)) := by
  have hdone := isWaiting_of_closed h.sound hclosed id
  rw [isWaiting_eq, hheld, Bool.true_and] at hdone
  cases hgiven : c.exchange.outcome? id with
  | none =>
    rw [hgiven] at hdone
    cases hdone
  | some r =>
    rcases h.proper id r hgiven with ⟨v, rfl⟩ | ⟨reason, rfl⟩
    · exact absurd hgiven (hnone v)
    · exact ⟨reason, rfl⟩

/-! ### An error message and a hang-up -/

/-- **An error message beats a hang-up.** Take any request for another tag than that of error
messages, on a connection that has gone through anything, and any run in which it is wholly written:
polls of the request, in the middle of which others go on, among whatever else happens. If its waiter
for error messages was given one and its reply's waiter was never given a reply, it has not ended but
with that message, or because its time was up; if it is still there, the next poll ends it with that
message, whatever the time is. If neither was given anything, it has not ended but with what its
reply's waiter was told of the close, or because its time was up; once the connection has closed, the
next poll ends it so. -/
theorem error_beats_hang_up {peer : String} {capacity : Option Nat}
    {earlier others : List Reception.Event} {payload : Payload} {limit : Option Nat}
    {start : Inquiry} {moves : List Move}
    (hbegins : Begins event payload limit reply error
      ((Reception.start peer capacity).run earlier).connection others start)
    (hothers : Spares [reply, error] others)
    (hmoves : ∀ m ∈ moves, Spares [reply, error] m.events) :
    let s := start.run moves
    let given := s.connection.exchange.outcome?
    (others = [] → ∀ now, ∃ call, start.poll = .pending call ∧
      ((Reception.start peer capacity).run earlier).connection.ask now event payload limit =
        call.poll start.connection now) ∧
    (s.sent = true → ∀ outcome, s.poll = .finished outcome → ∃ r, outcome = .reply r ∧
      (∀ data, given error = some (.ok data) → (∀ v, given reply ≠ some (.ok v)) →
        r = .error (.remote (remoteMessage data)) ∨ ∃ ms, r = .error (Deadline.failure event ms)) ∧
      ((∀ data, given error ≠ some (.ok data)) → (∀ v, given reply ≠ some (.ok v)) →
        (∃ reason, r = .error (closedFailure event reason) ∧ given reply = some r) ∨
          ∃ ms, r = .error (Deadline.failure event ms))) ∧
    ∀ call, s.poll = .pending call → ∀ now,
      call.pollOver s.connection now .atOnce = call.poll s.connection now ∧
      ∀ looks, Spares [reply, error] looks.events →
        let s' := s.step (.poll now looks)
        s'.sent = true →
        (∀ data, given error = some (.ok data) →
          (∀ v, s'.connection.exchange.outcome? reply ≠ some (.ok v)) →
          s'.poll = .failed (.remote (remoteMessage data))) ∧
        (s.connection.status = .closed → (∀ data, given error ≠ some (.ok data)) →
          (∀ v, given reply ≠ some (.ok v)) → looks.replyLate = false →
          ∃ reason, given reply = some (.error (closedFailure event reason)) ∧
            s'.poll = .failed (closedFailure event reason)) := by
  intro s given
  have hinv : Inv event reply error s :=
    (hbegins.inv (healthy_run peer capacity earlier) hothers).run hmoves
  refine ⟨?_, ?_, ?_⟩
  · rintro rfl now
    exact hbegins.ask now
  · intro hsent outcome houtcome
    cases hinv.stands with
    | sends hpoll => cases houtcome.symm.trans hpoll
    | hears hpoll => cases houtcome.symm.trans hpoll
    | unsent hpoll hunsent => cases hsent.symm.trans hunsent
    | @answered r hpoll _ hanswers =>
      cases houtcome.symm.trans hpoll
      refine ⟨r, rfl, ?_, ?_⟩
      · intro data hdata hnone
        cases hanswers with
        | reply hgiven hsilent =>
          cases r with
          | ok v => exact absurd hgiven (hnone v)
          | error failure => exact absurd hdata (hsilent failure rfl data)
        | remote hgiven =>
          cases hdata.symm.trans hgiven
          exact .inl rfl
        | late ms => exact .inr ⟨ms, rfl⟩
      · intro hsilent hnone
        cases hanswers with
        | reply hgiven _ =>
          rcases hinv.healthy.proper reply r hgiven with ⟨v, rfl⟩ | ⟨reason, rfl⟩
          · exact absurd hgiven (hnone v)
          · exact .inl ⟨reason, by rw [hinv.tag], hgiven⟩
        | remote hgiven => exact absurd hgiven (hsilent _)
        | late ms => exact .inr ⟨ms, rfl⟩
  · intro call hcall now
    refine ⟨hinv.pollOver_atOnce hcall now, ?_⟩
    intro looks hlooks s' hsent
    rcases hinv.poll_cases hcall hlooks now with ⟨hunsent, -⟩ | ⟨c, waiter?, deadline, hheeds⟩
    · cases hsent.symm.trans hunsent
    · have hcomes := hheeds.comes hinv.distinct
      have hconnection : s'.connection =
          (Call.hearOver c now event reply waiter? deadline looks).2 := by
        show (s.step (.poll now looks)).connection = _
        rw [hheeds.step]
      constructor
      · intro data hdata hnone
        refine hheeds.of_error hdata fun v hgiven => hnone v ?_
        rw [hconnection]
        exact hcomes.onward.outcome? hgiven
      · intro hclosed hsilent hnone hlate
        have hheld : s.connection.exchange.isHeld reply = true := by
          cases hinv.stands with
          | sends _ _ _ hreply => exact hreply
          | hears _ _ hreply => exact hreply
          | unsent hpoll => cases hcall.symm.trans hpoll
          | answered hpoll => cases hcall.symm.trans hpoll
        obtain ⟨reason, hreason⟩ := hinv.healthy.exists_reason hclosed hheld hnone
        rw [hinv.tag] at hreason
        exact ⟨reason, hreason, hheeds.of_failed hreason hclosed hsilent hlate⟩

/-- The peer answers with an error message and hangs up, and the reader finds out both. -/
def refused : List Move :=
  [.poll 0 .atOnce,
    .event (.incident (.peerWrites (Envelope.mk Envelope.errorEvent (.string "no")).toBytes)),
    .event (.incident .peerEnds)] ++
  List.replicate 5 (.event (.incident .reader))

/-- Polled long after its time is up, the request ends with the error message; without one, and in
time, with the close. -/
theorem error_beats_hang_up_refused :
    (fresh.run refused).connection.status = .closed ∧
    ((fresh.run refused).step (.poll 100 .atOnce)).poll = .failed (.remote "no") ∧
    ∃ reason, ((fresh.run [.poll 0 .atOnce, .event (.close 0)]).step (.poll 1 .atOnce)).poll =
      .failed (closedFailure "a" reason) := by
  have hnobody : Spares [0, 1] [] := fun _ h => absurd h List.not_mem_nil
  have hspares : ∀ moves : List Move, (∀ m ∈ moves, m.events.all fun what => what.lets = []) →
      ∀ m ∈ moves, Spares [0, 1] m.events := by
    intro moves h m hm what hwhat id _ hid
    have hnone := List.all_eq_true.mp (h m hm) what hwhat
    rw [decide_eq_true_eq] at hnone
    rw [hnone] at hid
    cases hid
  have hbegins : Begins "a" (.int 1) (some 5) 0 1
      ((Reception.start "peer" none).run []).connection ([] ++ []) fresh := begins_fresh
  refine ⟨rfl, ?_, ?_⟩
  · obtain ⟨-, -, hpolls⟩ := error_beats_hang_up hbegins hnobody (hspares refused (by decide))
    exact ((hpolls _ rfl 100).2 .atOnce hnobody rfl).1 _ rfl (by intro v h; cases h)
  · obtain ⟨-, -, hpolls⟩ := error_beats_hang_up hbegins hnobody
      (hspares [.poll 0 .atOnce, .event (.close 0)] (by decide))
    obtain ⟨reason, -, hpoll⟩ := ((hpolls _ rfl 1).2 .atOnce hnobody rfl).2 rfl
      (by intro v h; cases h) (by intro v h; cases h) rfl
    exact ⟨reason, hpoll⟩

end EnvelopeClient.Inquiry
