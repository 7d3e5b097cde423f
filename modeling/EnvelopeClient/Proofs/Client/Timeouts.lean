import EnvelopeClient.Proofs.Client.Continuation
import EnvelopeClient.Proofs.Connection.Asking
import EnvelopeClient.Proofs.Connection.Timeouts

/-!
# Timeouts take nothing and hide nothing

The deadline of a client's request counts from the poll at which its message is sent (`sentAt_run`).
A request that is told that the time is up has been given neither a reply nor an error message, then
or before; both its waiters leave with nothing, and every later message goes past them
(`Client.Hears.inTime`). `timeouts_spare_replies` says so of waiters and of requests, in every run.
-/

namespace EnvelopeClient

open Exchange Connection

/-- A call of a client's request for a tag, which may wait for so many milliseconds once it is
sent. -/
def Call.Inquires (event : String) (limit : Option Nat) : Call → Prop
  | .ask _ _ s l => s.event = event ∧ l = limit
  | .hear e _ _ deadline => e = event ∧ deadline.map (·.limit) = limit
  | _ => False

theorem Call.GoesOn.inquires {now : Nat} {call call' : Call} {event : String} {limit : Option Nat}
    (h : call.GoesOn now call') (hcall : call.Inquires event limit) :
    call'.Inquires event limit := by
  cases h with
  | waits => exact hcall
  | asks hevent => exact ⟨hevent.trans hcall.1, hcall.2⟩
  | @hears reply error s l =>
    obtain ⟨hevent, rfl⟩ := hcall
    refine ⟨hevent, ?_⟩
    cases l <;> rfl
  | sends | requests | receives => cases hcall

/-- A request that waits for its answer did so before, or has just been sent. -/
theorem Call.GoesOn.of_hear {now reply : Nat} {call : Call} {event : String} {error : Option Nat}
    {deadline : Option Deadline} (h : call.GoesOn now (.hear event reply error deadline)) :
    call = .hear event reply error deadline ∨
      ∃ s limit, call = .ask reply error s limit ∧ deadline = deadlineFrom now limit := by
  cases h with
  | waits => exact .inl rfl
  | hears => exact .inr ⟨_, _, rfl, rfl⟩

/-- Whether the message of a request is sent, and the request waits for its answer. -/
def InFlight.IsSent (r : InFlight) : Prop :=
  ∃ k event reply error deadline, r.progress = .running k (.hear event reply error deadline)

namespace Client

/-- What polling a request comes to that ends with an answer, once there is one. -/
def Poll.answering : Option Reply → Poll
  | none => .pending
  | some r => .finished r

/-- A request waits for its answer, for so many milliseconds from the time at which it was sent. -/
structure Hears (c : Client) (id : Nat) (r : InFlight) (k reply : Nat) (error : Option Nat)
    (sent ms : Nat) : Prop where
  mem : (id, r) ∈ c.requests
  running : r.progress = .running k (.hear r.event reply error (some ⟨sent + ms, ms⟩))

/-- At one of these moves the message of a request was sent, and the clock said when that was:
before the move it was not sent, and behind it the request stands as it does now. -/
def SentAt (start : Client) (moves : List Move) (id : Nat) (r : InFlight) (sent : Nat) : Prop :=
  ∃ before dial since, moves = before ++ .poll id sent dial :: since ∧
    (∀ r', (id, r') ∈ (start.run before).requests → ¬r'.IsSent) ∧
    (id, r) ∈ ((start.run before).move (.poll id sent dial)).requests

/-- What a poll of a request that waits for its answer comes to, behind moves of a client. -/
structure InTime (start : Client) (moves : List Move) (id now : Nat) (dial : Dial) (r : InFlight)
    (k reply : Nat) (error : Option Nat) (sent ms : Nat) (answer : Option Reply) : Prop where
  /-- The time is the one that was configured, and counts from where the message was sent. -/
  limit : start.config.timeouts.request? = some ms
  sentAt : SentAt start moves id r sent
  answers : ((start.run moves).poll now dial id).1 = Poll.answering answer
  /-- A request that is not over goes on to the same deadline. -/
  goesOn : answer = none →
    ((start.run moves).move (.poll id now dial)).Hears id r k reply error sent ms
  keepsTime : ∃ conn, (start.run moves).connections[k]? = some conn ∧
    conn.KeepsTime (reply :: error.toList)
      (Call.verdict? (conn.outcome? reply) (error.bind conn.outcome?)) (sent + ms ≤ now)
      (Deadline.failure r.event ms) answer
      (((start.run moves).move (.poll id now dial)).exchangeOn k)
  /-- If the time is up, nobody has ever given its waiters anything. -/
  untouched : (∃ text, answer = some (.error (.timeout text))) → ∀ earlier, earlier <+: moves →
    ∀ other ∈ reply :: error.toList, ((start.run earlier).exchangeOn k).outcome? other = none
  /-- And from then on every message goes past them. -/
  passedOver : (∃ text, answer = some (.error (.timeout text))) → ∀ later,
    ((((start.run moves).move (.poll id now dial)).run later).exchangeOn k).PassesOver
      (reply :: error.toList)

/-- Every call under way is that of a request with the time limit that is configured. -/
def Inquiring (c : Client) : Prop :=
  ∀ id r k call, (id, r) ∈ c.requests → r.progress = .running k call →
    call.Inquires r.event c.config.timeouts.request?

variable {c : Client} {config : Config} {moves : List Move} {id now k reply sent ms : Nat}
  {dial : Dial} {r : InFlight} {error : Option Nat} {text : String}

/-! ### Where deadlines come from -/

theorem run_concat (c : Client) (moves : List Move) (m : Move) :
    c.run (moves ++ [m]) = (c.run moves).move m := List.foldl_concat ..

theorem run_append (c : Client) (moves more : List Move) :
    c.run (moves ++ more) = (c.run moves).run more := List.foldl_append

theorem Inquiring.move (h : c.Inquiring) (horderly : c.Orderly) (m : Move) :
    (c.move m).Inquiring := by
  intro id r' k call' hmem hrunning
  rw [(continues_move horderly m).config]
  rcases running_of_move horderly hmem hrunning with
    hold | ⟨now, dial, r, call, -, hr, rfl, hgoesOn, hbefore⟩
  · exact h id r' k call' hold hrunning
  · refine hgoesOn.inquires ?_
    rcases hbefore with hcall | ⟨-, reply, error, s, hevent, rfl⟩
    · exact h id r k call hr hcall
    · exact ⟨hevent, rfl⟩

theorem inquiring_run (config : Config) (moves : List Move) :
    ((ofConfig config).run moves).Inquiring := by
  induction moves using List.reverseRecOn with
  | nil =>
    intro id r k call hmem
    cases hmem
  | append_singleton moves m ih =>
    rw [run_concat]
    exact ih.move ((orderly_ofConfig config).run moves) m

theorem SentAt.concat {start : Client} (h : SentAt start moves id r sent) (m : Move) :
    SentAt start (moves ++ [m]) id r sent := by
  obtain ⟨before, dial, since, rfl, hsent⟩ := h
  exact ⟨before, dial, since ++ [m], by simp, hsent⟩

/-- The deadline of every request that waits for its answer counts from where it was sent. -/
theorem sentAt_run {event : String} {d : Deadline}
    (hmem : (id, r) ∈ ((ofConfig config).run moves).requests)
    (hrunning : r.progress = .running k (.hear event reply error (some d))) :
    ∃ sent, d = ⟨sent + d.limit, d.limit⟩ ∧ SentAt (ofConfig config) moves id r sent := by
  induction moves using List.reverseRecOn with
  | nil => cases hmem
  | append_singleton moves m ih =>
    have horderly := (orderly_ofConfig config).run moves
    rw [run_concat] at hmem
    rcases running_of_move horderly hmem hrunning with
      hold | ⟨now, dial, before, call, rfl, hbefore, rfl, hgoesOn, hcall⟩
    · obtain ⟨sent, hdeadline, hsent⟩ := ih hold
      exact ⟨sent, hdeadline, hsent.concat m⟩
    · have hstarted : ∀ s limit, before.progress = .running k (.ask reply error s limit) ∨
          before.Idle → ∀ r', (id, r') ∈ ((ofConfig config).run moves).requests → ¬r'.IsSent := by
        rintro s limit hunsent r' hr' ⟨j, e, reply', error', deadline, hsent⟩
        obtain rfl := horderly.request_eq hr' hbefore
        rcases hunsent with hasking | hidle
        · cases hasking.symm.trans hsent
        · exact hidle _ _ hsent
      rcases hgoesOn.of_hear with rfl | ⟨s, limit, rfl, hdeadline⟩
      · rcases hcall with hsame | ⟨-, _, _, _, -, hask⟩
        · -- it waited before this move
          have hr : { before with progress := .running k (.hear event reply error (some d)) } =
              before := by rw [← hsame]
          rw [hr] at ih ⊢
          obtain ⟨sent, hdeadline, hsent⟩ := ih hbefore
          exact ⟨sent, hdeadline, hsent.concat _⟩
        · cases hask
      · -- this move has sent it
        obtain ⟨ms, -, rfl⟩ := Option.map_eq_some_iff.mp hdeadline.symm
        refine ⟨now, rfl, moves, dial, [], rfl, hstarted s limit ?_, hmem⟩
        exact hcall.imp_right fun h => h.1

/-! ### What a poll comes to -/

theorem mem_absorb_of_pending (hmem : (id, r) ∈ c.requests)
    {result : EnvelopeClient.Poll × Connection} {call : Call} (hcall : result.1 = .pending call) :
    (id, { r with progress := .running k call }) ∈ (c.absorb id k result).2.requests := by
  obtain ⟨poll, conn⟩ := result
  cases hcall
  have hprogress := requests_setProgress (c.onConnection k fun _ => conn) id (.running k call)
  simp only [absorb]
  rw [hprogress]
  exact List.mem_map.mpr ⟨(id, r), hmem, by simp⟩

/-- Each poll of a request that waits for its answer keeps to the deadline. -/
theorem Hears.keepsTime (h : c.Hears id r k reply error sent ms) (horderly : c.Orderly)
    (hproper : (c.exchangeOn k).Proper) (hfails : (c.exchangeOn k).FailsClosed) (now : Nat)
    (dial : Dial) :
    ∃ conn answer, c.connections[k]? = some conn ∧
      (c.poll now dial id).1 = Poll.answering answer ∧
      (answer = none → (c.poll now dial id).2.Hears id r k reply error sent ms) ∧
      conn.KeepsTime (reply :: error.toList)
        (Call.verdict? (conn.outcome? reply) (error.bind conn.outcome?)) (sent + ms ≤ now)
        (Deadline.failure r.event ms) answer ((c.poll now dial id).2.exchangeOn k) ∧
      ((∃ text, answer = some (.error (.timeout text))) →
        Departed (reply :: error.toList) ((c.poll now dial id).2.exchangeOn k)) := by
  have hlt := (horderly.running _ h.mem k _ h.running).1
  obtain ⟨conn, hconn⟩ : ∃ conn, c.connections[k]? = some conn :=
    ⟨_, List.getElem?_eq_getElem hlt⟩
  obtain ⟨halive, haccounts⟩ := horderly.under_way h.mem h.running hconn
  rw [exchangeOn_eq hconn] at hproper hfails
  have hgone : conn.isGone = false := by simp [isGone, halive]
  have hheld : ∀ other ∈ reply :: error.toList, conn.exchange.isHeld other = true :=
    fun other hother => haccounts.held other (List.mem_append_left _ hother)
  obtain ⟨answer, hanswer, hkeeps, hdeparted⟩ := keepsTime_pollHear haccounts.sound hproper hfails
    hgone hheld now r.event ⟨sent + ms, ms⟩
  rw [poll_of_running horderly.numbers h.mem h.running hconn]
  have hnotes := notes_absorb hconn id
    ((Call.hear r.event reply error (some ⟨sent + ms, ms⟩)).poll conn now)
  have hexchange := (hnotes.exchangeOn k).trans (if_pos rfl)
  rw [hexchange]
  refine ⟨conn, answer, hconn, ?_, ?_, hkeeps, hdeparted⟩
  · cases answer with
    | none => exact hnotes.pending _ hanswer
    | some r => exact hnotes.finished _ hanswer
  · rintro rfl
    refine ⟨?_, h.running⟩
    have hmem := mem_absorb_of_pending (k := k) h.mem hanswer
    rwa [← h.running] at hmem

/-- In every run each poll of a request that waits for its answer comes to what its waiters have
been given, if there is anything, and otherwise keeps to the deadline that was laid down when it was
sent. -/
theorem Hears.inTime (h : ((ofConfig config).run moves).Hears id r k reply error sent ms)
    (now : Nat) (dial : Dial) :
    ∃ answer, InTime (ofConfig config) moves id now dial r k reply error sent ms answer := by
  have hstart := orderly_ofConfig config
  have horderly := hstart.run moves
  have hfresh := leadsTo_exchangeOn config moves k
  have hproper := hfresh.proper sound_opened proper_opened
  have hfails := hfresh.failsClosed sound_opened failsClosed_opened
  obtain ⟨conn, answer, hconn, hanswer, hgoesOn, hkeeps, hdeparted⟩ :=
    h.keepsTime horderly hproper hfails now dial
  refine ⟨answer, ?_, ?_, hanswer, hgoesOn, ⟨conn, hconn, hkeeps⟩, ?_, ?_⟩
  · have hinquires := inquiring_run config moves id r k _ h.mem h.running
    rw [(continues_run hstart moves).config] at hinquires
    exact hinquires.2.symm
  · obtain ⟨sent', hdeadline, hsent⟩ := sentAt_run h.mem h.running
    have htime : sent + ms = sent' + ms := congrArg Deadline.time hdeadline
    obtain rfl : sent = sent' := by omega
    exact hsent
  · rintro htimeout earlier ⟨more, rfl⟩ other hother
    have hgiven := (outcome?_eq_none.mp ((hkeeps.timesOut.mp htimeout).2 other hother)).2
    rw [← exchangeOn_eq hconn, run_append] at hgiven
    have hleads := (continues_run (hstart.run earlier) more).leadsTo k
    exact hleads.outcome?_eq_none ((leadsTo_exchangeOn config earlier k).sound sound_opened) hgiven
  · intro htimeout later
    have hpolled := continues_move horderly (.poll id now dial)
    have hleads := (continues_run (horderly.move (.poll id now dial)) later).leadsTo k
    have hsound := (hpolled.leadsTo k).sound (hfresh.sound sound_opened)
    exact (hleads.departed hsound (hdeparted htimeout)).passesOver (hleads.sound hsound)

/-- A client is told that the time is up by the socket it dials, or once it waits for an answer. -/
theorem hears_of_timeout (htimeout : (((ofConfig config).run moves).poll now dial id).1 =
      .finished (.error (.timeout text))) :
    dial = .failed (.timeout text) ∨
      ∃ r k reply error sent ms,
        ((ofConfig config).run moves).Hears id r k reply error sent ms := by
  have horderly := (orderly_ofConfig config).run moves
  have hfresh := leadsTo_exchangeOn config moves
  cases polled_poll horderly now dial id with
  | aside hanswer =>
    obtain ⟨failure, hdial, hfailure⟩ := hanswer _ htimeout
    cases hfailure
    exact .inl hdial
  | @enters r k conn _ _ _ hsound hexchange hnotes =>
    have hproper := (hfresh k).proper sound_opened proper_opened
    rw [hexchange] at hproper
    exact absurd (hnotes.of_failed htimeout)
      (ne_timeout_of_ask hsound hproper Timeouts.request?_pos)
  | @goesOn r k call conn hmem hrunning hconn hnotes =>
    have hsound := (hfresh k).sound sound_opened
    have hproper := (hfresh k).proper sound_opened proper_opened
    rw [exchangeOn_eq hconn] at hsound hproper
    have hfailed := hnotes.of_failed htimeout
    have hinquires := inquiring_run config moves id r k call hmem hrunning
    cases call with
    | ask reply error s limit =>
      obtain ⟨-, rfl⟩ := hinquires
      exact absurd hfailed (ne_timeout_of_poll_ask hsound hproper Timeouts.request?_pos)
    | hear event reply error deadline =>
      obtain ⟨rfl, -⟩ := hinquires
      obtain ⟨d, rfl, -⟩ := past_of_pollHear hproper hfailed
      obtain ⟨sent, hdeadline, -⟩ := sentAt_run hmem hrunning
      exact .inr ⟨r, k, reply, error, sent, d.limit, hmem, hdeadline ▸ hrunning⟩
    | receive | send | request | close => cases hinquires

end Client

/-- Timeouts neither take nor hide what was given, whatever happens in whatever order.

A poll that waits on a waiter within a time, for the first time or again, says that the time is up
exactly if the clock has reached the time of the first poll and the limit it named, and the waiter
has been given nothing. What the waiter has been given is what the poll comes to, however late it
is. Whoever is told that the time is up has never been given anything, its place is gone, nobody
else has lost or gained anything, and every later message goes to the oldest waiter of its tag that
is still there, or is dropped. A plain wait is told so only by such a poll.

So it is with a request of a client: its time is the one that is configured, counts from the poll
that sent its message, and is up only if neither its waiter for the reply nor the one for an error
message has been given anything; and both leave. Apart from that only the dial of the socket can
tell a client that the time is up. -/
theorem timeouts_spare_replies :
    (∀ (peer : String) (capacity : Option Nat) (moves : List Session.Move) (name : String)
        (limit : Option Nat),
      let start := Session.start peer capacity
      (∀ id began ms, (start.run moves).PollsWithin name limit id began ms →
        ∃ answer, Session.InTime start moves name limit id began ms answer) ∧
      ∀ id handle text, (start.run moves).handles.lookup name = some handle →
        Session.Receives id handle →
        ((start.run moves).act (.receive name limit)).1 =
          .finished (.reply (.error (.timeout text))) →
        ∃ began ms, (start.run moves).PollsWithin name limit id began ms) ∧
    ∀ (config : Config) (moves : List Client.Move) (id now : Nat) (dial : Dial),
      let start := Client.ofConfig config
      (∀ r k reply error sent ms, (start.run moves).Hears id r k reply error sent ms →
        ∃ answer, Client.InTime start moves id now dial r k reply error sent ms answer) ∧
      ∀ text, ((start.run moves).poll now dial id).1 = .finished (.error (.timeout text)) →
        dial = .failed (.timeout text) ∨
          ∃ r k reply error sent ms, (start.run moves).Hears id r k reply error sent ms := by
  refine ⟨?_, ?_⟩
  · intro peer capacity moves name limit start
    have hstart := Session.sound_start peer capacity
    refine ⟨fun id began ms h => Session.exists_inTime hstart rfl h, ?_⟩
    intro id handle text hlookup hreceives htimeout
    exact Session.pollsWithin_of_timeout hstart rfl hlookup hreceives htimeout
  · intro config moves id now dial start
    exact ⟨fun r k reply error sent ms h => h.inTime now dial,
      fun text htimeout => Client.hears_of_timeout htimeout⟩

/-- A wait and a request, each polled at the very end of its time. -/
theorem timeouts_spare_replies_late :
    let start := Session.start "peer" none
    let waited : List Session.Move := [.act (.register "waiter" "ready"),
      .act (.receive "waiter" (some 20)), .act (.advance 20)]
    let client := Client.ofConfig ⟨"socket", .perRequest, ⟨0, 10⟩⟩
    let asked : List Client.Move := [.begin "echo" (.int 1), .poll 0 5 (.accepted none)]
    let r : InFlight :=
      ⟨"echo", .int 1, .running 0 (.hear "echo" 0 (some 1) (some ⟨5 + 10, 10⟩))⟩
    Session.InTime start waited "waiter" none 0 0 20
        (some (.error (Deadline.failure "ready" 20))) ∧
      (∃ began ms, (start.run waited).PollsWithin "waiter" none 0 began ms) ∧
      Client.InTime client asked 0 15 .waiting r 0 0 (some 1) 5 10
        (some (.error (Deadline.failure "echo" 10))) ∧
      ∃ r k reply error sent ms, (client.run asked).Hears 0 r k reply error sent ms := by
  intro start waited client asked r
  obtain ⟨hsession, hclient⟩ := timeouts_spare_replies
  obtain ⟨hwaits, hplain⟩ := hsession "peer" none waited "waiter" none
  obtain ⟨hhears, htold⟩ := hclient ⟨"socket", .perRequest, ⟨0, 10⟩⟩ asked 0 15 .waiting
  obtain ⟨answer, hwait⟩ := hwaits 0 0 20 (.again rfl)
  obtain ⟨answer', hrequest⟩ := hhears r 0 0 (some 1) 5 10 ⟨List.mem_cons_self, rfl⟩
  have hnobody : ∀ id ∈ [0], (start.run waited).connection.outcome? id = none := by
    intro id hid
    obtain rfl := List.mem_singleton.mp hid
    rfl
  obtain ⟨rfl, -⟩ := hwait.keepsTime.late hnobody (by decide)
  obtain ⟨conn, hconn, hkeeps⟩ := hrequest.keepsTime
  cases hconn
  obtain ⟨rfl, -⟩ := hkeeps.late (by decide) (by decide)
  refine ⟨hwait, ?_, hrequest, ?_⟩
  · exact hplain 0 (.call (.receive 0 (some ⟨0 + 20, 20⟩) false)) _ rfl rfl hwait.answers
  · exact (htold _ hrequest.answers).resolve_left (by simp)

end EnvelopeClient
