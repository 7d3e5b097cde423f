import EnvelopeClient.Proofs.Connection.Lifecycle
import EnvelopeClient.Proofs.Inquiry.System
import EnvelopeClient.Proofs.Reception.Account

/-!
# What a request can rely on

Whatever others do, they do not let go of a request's waiters (`Reception.evolves_happen`), so what
the waiters were given stays, and once the connection is closed nothing comes to it (`Onward`). The
state of the request itself is one of five (`Inquiry.Stands`), which every move keeps.
-/

namespace EnvelopeClient

open Exchange

/-! ### What others do -/

namespace Reception

open Connection

variable {c : Connection}

/-- Whatever others do, they let go of nobody but their own waiters. -/
theorem evolves_happen (hgone : c.isGone = false) (what : Event) :
    (∃ reason, Evolves reason what.lets c.exchange (happen c what).exchange) ∧
      (happen c what).released = c.released := by
  cases what with
  | register event =>
    rw [happen]
    cases hregister : c.register event with
    | error failure => exact ⟨⟨"", .refl _⟩, rfl⟩
    | ok r =>
      have hchanges := changes_register hregister
      exact ⟨⟨"", hchanges.exchange.then_evolves (.refl _)⟩, hchanges.released⟩
  | drop waiter =>
    have hchanges := changes_dropWaiter (c := c) (List.mem_singleton_self waiter)
    exact ⟨⟨"", .letGo hchanges.exchange⟩, hchanges.released⟩
  | receive now waiter deadline =>
    have hchanges := (polls_pollReceive hgone now waiter deadline true).changes
    exact ⟨⟨"", .letGo hchanges.exchange⟩, hchanges.released⟩
  | queue event payload =>
    rw [happen]
    cases hbegin : c.beginSend event payload with
    | error failure => exact ⟨⟨"", .refl _⟩, rfl⟩
    | ok r =>
      have hchanges := changes_beginSend hbegin (changes_self c)
      exact ⟨⟨"", hchanges.exchange.then_evolves (.refl _)⟩, hchanges.released⟩
  | send s =>
    have hchanges := changes_pollSend c s
    exact ⟨⟨peerWentAway, hchanges.exchange.evolves⟩, hchanges.released⟩
  | leave turn => exact ⟨⟨"", .refl _⟩, rfl⟩
  | close now =>
    obtain ⟨outbound, turns, nextTurn, hsame⟩ := close_eq c now
    rw [happen, hsame]
    exact ⟨⟨closedLocally, .close (.refl _)⟩, rfl⟩
  | incident what =>
    cases what with
    | reader =>
      show (∃ reason, Evolves reason [] c.exchange (c.readerStep.getD c).exchange) ∧
        (c.readerStep.getD c).released = c.released
      cases hstep : c.readerStep with
      | none => exact ⟨⟨"", .refl _⟩, rfl⟩
      | some c' =>
        obtain ⟨hevolves, hreleased⟩ := evolves_readerStep hstep
        exact ⟨⟨_, hevolves⟩, hreleased⟩
    | trap operation trap => cases operation <;> exact ⟨⟨"", .refl _⟩, rfl⟩
    | peerWrites bytes => exact ⟨⟨"", .refl _⟩, rfl⟩
    | peerReads count => exact ⟨⟨"", .refl _⟩, rfl⟩
    | peerEnds => exact ⟨⟨"", .refl _⟩, rfl⟩
    | peerAbandons => exact ⟨⟨"", .refl _⟩, rfl⟩
    | abort => exact ⟨⟨"", .refl _⟩, rfl⟩

end Reception

namespace Inquiry

/-- A connection that somebody holds, whose waiters fail only by a close. -/
structure Healthy (c : Connection) : Prop where
  released : c.released = false
  sound : c.exchange.Sound
  proper : c.exchange.Proper
  failsClosed : c.exchange.FailsClosed

/-- A connection goes on, and the waiters `kept` are not let go. -/
structure Onward (kept : List Nat) (c c' : Connection) : Prop where
  outcome? : ∀ {id r}, c.exchange.outcome? id = some r → c'.exchange.outcome? id = some r
  isHeld : ∀ id ∈ kept, c.exchange.isHeld id = true → c'.exchange.isHeld id = true
  eventOf : ∀ id < c.exchange.mailboxes.length, c'.exchange.eventOf id = c.exchange.eventOf id
  length_le : c.exchange.mailboxes.length ≤ c'.exchange.mailboxes.length
  closed : c.exchange.status = .closed →
    c'.exchange.status = .closed ∧ ∀ id, c'.exchange.outcome? id = c.exchange.outcome? id

variable {event : String} {reply error : Nat} {c c' c'' : Connection} {kept ids : List Nat}
  {reason : String} {s : Inquiry}

namespace Onward

theorem refl (kept : List Nat) (c : Connection) : Onward kept c c :=
  ⟨id, fun _ _ => id, fun _ _ => rfl, Nat.le_refl _, fun h => ⟨h, fun _ => rfl⟩⟩

theorem trans (h : Onward kept c c') (h' : Onward kept c' c'') : Onward kept c c'' where
  outcome? hr := h'.outcome? (h.outcome? hr)
  isHeld id hid hheld := h'.isHeld id hid (h.isHeld id hid hheld)
  eventOf id hlt := (h'.eventOf id (Nat.lt_of_lt_of_le hlt h.length_le)).trans (h.eventOf id hlt)
  length_le := Nat.le_trans h.length_le h'.length_le
  closed hclosed := by
    obtain ⟨hclosed', hsame⟩ := h.closed hclosed
    obtain ⟨hclosed'', hsame'⟩ := h'.closed hclosed'
    exact ⟨hclosed'', fun id => (hsame' id).trans (hsame id)⟩

theorem mono {fewer : List Nat} (h : Onward kept c c') (hfewer : fewer ⊆ kept) :
    Onward fewer c c' :=
  { h with isHeld := fun id hid => h.isHeld id (hfewer hid) }

end Onward

namespace Healthy

theorem isGone (h : Healthy c) : c.isGone = false := by
  simp [Connection.isGone, h.released]

theorem outcome? (h : Healthy c) (id : Nat) : c.outcome? id = c.exchange.outcome? id :=
  Connection.outcome?_of_not_gone h.isGone id

/-- Whatever happens, what waiters were given stays, and only waiters that are let go are. -/
theorem evolves (h : Healthy c) (kept : List Nat)
    (hevolves : Evolves reason ids c.exchange c'.exchange) (hreleased : c'.released = c.released) :
    Healthy c' ∧ ((∀ id ∈ kept, id ∉ ids) → Onward kept c c') := by
  refine ⟨⟨hreleased.trans h.released, hevolves.sound h.sound, hevolves.proper h.sound h.proper,
    hevolves.failsClosed h.sound h.failsClosed⟩, ?_⟩
  intro hids
  refine ⟨hevolves.outcome?_eq h.sound, ?_, fun id => hevolves.eventOf_eq h.sound,
    hevolves.length_le h.sound, ?_⟩
  · intro id hid hheld
    rw [hevolves.isHeld_eq h.sound (hids id hid) (lt_of_isHeld hheld), hheld]
  · intro hclosed
    have hkeeps := hevolves.keeps_of_closed h.sound hclosed
    exact ⟨hkeeps.status.trans hclosed, hkeeps.outcome?⟩

/-- Letting go of waiters takes nothing from anybody. -/
theorem letsGo (h : Healthy c) (kept : List Nat)
    (hchanges : Connection.Changes (LetsGo ids) c c') :
    Healthy c' ∧ ((∀ id ∈ kept, id ∉ ids) → Onward kept c c') := by
  have hevolves : Evolves "" ids c.exchange c'.exchange := .letGo hchanges.exchange
  exact h.evolves kept hevolves hchanges.released

end Healthy

/-- Others spare some waiters. -/
def Spares (kept : List Nat) (events : List Reception.Event) : Prop :=
  ∀ what ∈ events, ∀ id ∈ kept, id ∉ what.lets

theorem Healthy.happened (h : Healthy c) {events : List Reception.Event}
    (hspares : Spares kept events) :
    Healthy (c.happened events) ∧ Onward kept c (c.happened events) := by
  induction events generalizing c with
  | nil => exact ⟨h, .refl _ c⟩
  | cons what events ih =>
    obtain ⟨⟨reason, hevolves⟩, hreleased⟩ := Reception.evolves_happen h.isGone what
    obtain ⟨hnext, honward⟩ := h.evolves kept hevolves hreleased
    obtain ⟨hlast, hrest⟩ := ih hnext fun other hother =>
      hspares other (List.mem_cons_of_mem what hother)
    exact ⟨hlast, (honward (hspares what List.mem_cons_self)).trans hrest⟩

/-- So is every connection nobody has let go of. -/
theorem healthy_run (peer : String) (capacity : Option Nat) (events : List Reception.Event) :
    Healthy ((Reception.start peer capacity).run events).connection := by
  have hconnection : ∀ s : Reception, (s.run events).connection = s.connection.happened events := by
    induction events with
    | nil => exact fun _ => rfl
    | cons what events ih => exact fun s => ih (s.step what)
  have hfresh : Healthy (Connection.opened peer capacity) :=
    ⟨rfl, sound_opened, proper_opened, fun id failure hfailed => by cases hfailed⟩
  have hspares : Spares [] events := fun _ _ _ hid => absurd hid List.not_mem_nil
  rw [hconnection]
  exact (hfresh.happened hspares).1

/-! ### What a look finds -/

namespace Healthy

theorem of_seen (h : Healthy c) {late : Bool} {id : Nat} {r : Reply}
    (hseen : c.seen? late id = some r) : c.exchange.outcome? id = some r := by
  rw [← h.outcome?, ← hseen, Connection.seen?]
  split
  · next failure hfailed =>
    cases late with
    | false => exact hfailed
    | true =>
      simp only [Connection.seen?, hfailed] at hseen
      cases hseen
  · rfl

/-- Data is seen wherever it is. -/
theorem seen_of_ok (h : Healthy c) {id : Nat} {v : Json.Value}
    (hgiven : c.exchange.outcome? id = some (.ok v)) (late : Bool) :
    c.seen? late id = some (.ok v) := by
  rw [← h.outcome?] at hgiven
  rw [Connection.seen?, hgiven]

theorem seen_of_failed (h : Healthy c) {id : Nat} {failure : Failure}
    (hgiven : c.exchange.outcome? id = some (.error failure)) :
    c.seen? false id = some (.error failure) := by
  rw [← h.outcome?] at hgiven
  rw [Connection.seen?, hgiven]
  rfl

end Healthy

/-! ### How a request stands -/

/-- What a request that was sent can end with: what its reply's waiter was given, unless that is a
failure and there is an error message; that error message; or its time is up. -/
inductive Answers (event : String) (reply error : Nat) (x : Exchange) : Reply → Prop where
  | reply {r : Reply} (hgiven : x.outcome? reply = some r)
      (hnone : ∀ failure, r = .error failure → ∀ data, x.outcome? error ≠ some (.ok data)) :
      Answers event reply error x r
  | remote {data : Json.Value} (hgiven : x.outcome? error = some (.ok data)) :
      Answers event reply error x (.error (.remote (remoteMessage data)))
  | late (limit : Nat) : Answers event reply error x (.error (Deadline.failure event limit))

/-- A request listens for error messages, or was told by that waiter that the connection closed. -/
inductive Listening (error : Nat) (x : Exchange) : Option Nat → Prop where
  | both (herror : x.isHeld error = true) : Listening error x (some error)
  | told {failure : Failure} (hfailed : x.outcome? error = some (.error failure)) :
      Listening error x none

/-- The states of a request. -/
inductive Stands (event : String) (reply error : Nat) (s : Inquiry) : Prop where
  | sends {sending : Sending} {limit : Option Nat}
      (hpoll : s.poll = .pending (.ask reply (some error) sending limit))
      (hevent : sending.event = event) (hsent : s.sent = false)
      (hreply : s.connection.exchange.isHeld reply = true)
      (herror : s.connection.exchange.isHeld error = true) : Stands event reply error s
  | hears {waiter? : Option Nat} {deadline : Option Deadline}
      (hpoll : s.poll = .pending (.hear event reply waiter? deadline)) (hsent : s.sent = true)
      (hreply : s.connection.exchange.isHeld reply = true)
      (hlistening : Listening error s.connection.exchange waiter?) : Stands event reply error s
  | unsent {outcome : Outcome} (hpoll : s.poll = .finished outcome) (hsent : s.sent = false) :
      Stands event reply error s
  | answered {r : Reply} (hpoll : s.poll = .finished (.reply r)) (hsent : s.sent = true)
      (hanswers : Answers event reply error s.connection.exchange r) : Stands event reply error s

/-- What a request ended with stays what it was told. -/
theorem Answers.onward {r : Reply} (h : Answers event reply error c.exchange r)
    (hclosed : c.exchange.FailsClosed) (honward : Onward kept c c') :
    Answers event reply error c'.exchange r := by
  cases h with
  | reply hgiven hnone =>
    refine .reply (honward.outcome? hgiven) ?_
    rintro failure rfl data hdata
    rw [(honward.closed (hclosed reply failure hgiven)).2] at hdata
    exact hnone failure rfl data hdata
  | remote hgiven => exact .remote (honward.outcome? hgiven)
  | late limit => exact .late limit

theorem Listening.onward {waiter? : Option Nat} (h : Listening error c.exchange waiter?)
    (honward : Onward kept c c') (hkept : error ∈ kept) : Listening error c'.exchange waiter? := by
  cases h with
  | both herror => exact .both (honward.isHeld error hkept herror)
  | told hfailed => exact .told (honward.outcome? hfailed)

/-- What others do leaves a request where it is. -/
theorem Stands.onward (h : Stands event reply error s)
    (hclosed : s.connection.exchange.FailsClosed) (honward : Onward [reply, error] s.connection c') :
    Stands event reply error { s with connection := c' } := by
  have hreply := honward.isHeld reply (by simp)
  have herror := honward.isHeld error (by simp)
  cases h with
  | sends hpoll hevent hsent hreply' herror' =>
    exact .sends hpoll hevent hsent (hreply hreply') (herror herror')
  | hears hpoll hsent hreply' hlistening =>
    exact .hears hpoll hsent (hreply hreply') (hlistening.onward honward (by simp))
  | unsent hpoll hsent => exact .unsent hpoll hsent
  | answered hpoll hsent hanswers => exact .answered hpoll hsent (hanswers.onward hclosed honward)

/-! ### A look for the answer -/

/-- What polling a request leads to. -/
structure Comes (event : String) (reply error : Nat) (c : Connection) (r : Poll × Connection) :
    Prop where
  healthy : Healthy r.2
  stands : Stands event reply error ⟨r.2, r.1, true⟩
  onward : Onward [] c r.2

variable {waiter? : Option Nat} {deadline : Option Deadline} {looks : Looks} {now : Nat}

theorem Comes.after {r : Poll × Connection} (honward : Onward kept c c')
    (h : Comes event reply error c' r) : Comes event reply error c r :=
  ⟨h.healthy, h.stands, (honward.mono (List.nil_subset _)).trans h.onward⟩

/-- A request that ends lets go of its waiters. -/
theorem comes_answered (h : Healthy c) (hchanges : Connection.Changes (LetsGo ids) c c') {r : Reply}
    (hanswers : Answers event reply error c.exchange r) :
    Comes event reply error c (.finished (.reply r), c') := by
  obtain ⟨hhealthy, honward⟩ := h.letsGo [] hchanges
  have honward := honward (by simp)
  exact ⟨hhealthy, .answered rfl rfl (hanswers.onward h.failsClosed honward), honward⟩

theorem comes_waitOn (h : Healthy c) (hreply : c.exchange.isHeld reply = true)
    (hlistening : Listening error c.exchange waiter?) (now : Nat) (deadline : Option Deadline) :
    Comes event reply error c (Call.waitOn c now event reply waiter? deadline) := by
  rw [Call.waitOn]
  cases Call.isPast deadline now with
  | some d =>
    exact comes_answered h (Connection.changes_dropWaiters c waiter? reply) (.late d.limit)
  | none => exact ⟨h, .hears rfl rfl hreply hlistening, .refl _ c⟩

/-- A verdict is an answer, of what there was at the two looks. -/
theorem answers_of_verdict (h : Healthy c) (h' : Healthy c') (honward : Onward kept c c')
    (hlistening : Listening error c'.exchange waiter?) {replyLate errorLate : Bool} {r : Reply}
    (hverdict : Call.verdict? (c.seen? replyLate reply) (waiter?.bind (c'.seen? errorLate)) =
      some r) : Answers event reply error c'.exchange r := by
  have hremote : ∀ {data}, waiter?.bind (c'.seen? errorLate) = some (.ok data) →
      c'.exchange.outcome? error = some (.ok data) := by
    intro data hseen
    cases hlistening with
    | both herror => exact h'.of_seen hseen
    | told hfailed => cases hseen
  have hsilent : ∀ {data}, c'.exchange.outcome? error = some (.ok data) →
      waiter?.bind (c'.seen? errorLate) = some (.ok data) := by
    intro data hdata
    cases hlistening with
    | both herror => exact h'.seen_of_ok hdata errorLate
    | told hfailed =>
      rw [hfailed] at hdata
      cases hdata
  rcases Call.verdict?_eq_some hverdict with ⟨data, herror, rfl⟩ | ⟨hreply, hnone⟩
  · exact .remote (hremote herror)
  · refine .reply (honward.outcome? (h.of_seen hreply)) ?_
    exact fun failure hfailure data hdata => hnone failure hfailure data (hsilent hdata)

/-- What looking for an answer comes to, whatever others do in between. -/
theorem comes_hearOver (hne : reply ≠ error) (h : Healthy c) (hreply : c.exchange.isHeld reply = true)
    (hlistening : Listening error c.exchange waiter?)
    (hspares : Spares [reply, error] looks.beforeError)
    (hspares' : Spares [reply, error] looks.beforeAgain) (event : String) (now : Nat)
    (deadline : Option Deadline) :
    Comes event reply error c (Call.hearOver c now event reply waiter? deadline looks) := by
  obtain ⟨hnext, honward⟩ := h.happened hspares
  have hreply' := honward.isHeld reply (by simp) hreply
  have hlistening' := hlistening.onward honward (by simp)
  refine .after honward ?_
  simp only [Call.hearOver]
  cases hverdict : Call.verdict? (c.seen? looks.replyLate reply)
      (waiter?.bind ((c.happened looks.beforeError).seen? looks.errorLate)) with
  | some r =>
    exact comes_answered hnext (Connection.changes_dropWaiters _ waiter? reply)
      (answers_of_verdict h hnext honward hlistening' hverdict)
  | none =>
    obtain ⟨-, hdata⟩ := Call.verdict?_eq_none hverdict
    cases hfound : waiter?.bind ((c.happened looks.beforeError).seen? looks.errorLate) with
    | none => exact comes_waitOn hnext hreply' hlistening' now deadline
    | some found =>
      cases hlistening' with
      | told hfailed => cases hfound
      | both herror =>
        -- the connection closed between the two looks, or a close is under way
        have hgiven := hnext.of_seen hfound
        cases found with
        | ok data => exact absurd hfound (hdata data)
        | error failure =>
          have hdone : (c.happened looks.beforeError).exchange.isWaiting error = false := by
            simp [isWaiting_eq, hgiven]
          have hchanges : Connection.Changes (LetsGo [error]) (c.happened looks.beforeError)
              ((c.happened looks.beforeError).settleWaiter? (some error)) :=
            ⟨.settle (by simp) hdone (.refl _), rfl, rfl⟩
          obtain ⟨hsettled, hsettling⟩ := hnext.letsGo [reply] hchanges
          obtain ⟨hagain, honward'⟩ := hsettled.happened hspares'
          have hlast := (hsettling (by simpa using hne)).trans (honward'.mono (by simp))
          have hfailed := hlast.outcome? hgiven
          refine .after hlast ?_
          simp only [Option.isSome_some, if_true]
          cases hlook : Connection.seen? _ looks.againLate reply with
          | some r =>
            refine comes_answered hagain (Connection.changes_dropWaiter (List.mem_singleton_self reply))
              (.reply (hagain.of_seen hlook) fun _ _ data hdata => ?_)
            rw [hfailed] at hdata
            cases hdata
          | none =>
            exact comes_waitOn hagain (hlast.isHeld reply (by simp) hreply') (.told hfailed) now
              deadline

/-! ### Runs -/

/-- What is the case throughout the run of a request. -/
structure Inv (event : String) (reply error : Nat) (s : Inquiry) : Prop where
  healthy : Healthy s.connection
  distinct : reply ≠ error
  tag : s.connection.exchange.eventOf reply = event
  reply_lt : reply < s.connection.exchange.mailboxes.length
  stands : Stands event reply error s

/-- A poll of a request that has been sent, or is sent by it, looks for the answer on what the
connection has come to. -/
structure Heeds (event : String) (reply error : Nat) (s : Inquiry) (now : Nat) (looks : Looks)
    (c : Connection) (waiter? : Option Nat) (deadline : Option Deadline) : Prop where
  healthy : Healthy c
  onward : Onward [reply, error] s.connection c
  held : c.exchange.isHeld reply = true
  listening : Listening error c.exchange waiter?
  beforeError : Spares [reply, error] looks.beforeError
  beforeAgain : Spares [reply, error] looks.beforeAgain
  step : s.step (.poll now looks) =
    ⟨(Call.hearOver c now event reply waiter? deadline looks).2,
      (Call.hearOver c now event reply waiter? deadline looks).1, true⟩

/-- A poll is still about sending the request, or it looks for the answer. -/
theorem Inv.poll_cases (h : Inv event reply error s) {call : Call} (hcall : s.poll = .pending call)
    (hspares : Spares [reply, error] looks.events) (now : Nat) :
    ((s.step (.poll now looks)).sent = false ∧ Healthy (s.step (.poll now looks)).connection ∧
      Stands event reply error (s.step (.poll now looks)) ∧
      Onward [] s.connection (s.step (.poll now looks)).connection) ∨
    ∃ c waiter? deadline, Heeds event reply error s now looks c waiter? deadline := by
  have hbeforeReply : Spares [reply, error] looks.beforeReply :=
    fun what hwhat => hspares what (by simp [Looks.events, hwhat])
  have hbeforeError : Spares [reply, error] looks.beforeError :=
    fun what hwhat => hspares what (by simp [Looks.events, hwhat])
  have hbeforeAgain : Spares [reply, error] looks.beforeAgain :=
    fun what hwhat => hspares what (by simp [Looks.events, hwhat])
  have hstep := step_poll hcall now looks
  cases h.stands with
  | @sends sending limit hpoll hevent hsent hreply herror =>
    cases hcall.symm.trans hpoll
    rw [hsent, Call.pollOver, Call.getsSent] at hstep
    have hwrite := Connection.changes_pollSend s.connection sending
    cases hsend : s.connection.pollSend sending with
    | mk result c' =>
      rw [hsend] at hwrite hstep
      have hevolves : Evolves Connection.peerWentAway [] s.connection.exchange c'.exchange :=
        hwrite.exchange.evolves
      obtain ⟨hnext, honward⟩ := h.healthy.evolves [reply, error] hevolves hwrite.released
      have honward := honward (by simp)
      have hreply' := honward.isHeld reply (by simp) hreply
      have herror' := honward.isHeld error (by simp) herror
      cases result with
      | pending sending' =>
        have hsame : sending'.event = sending.event := Connection.event_pollSend (by rw [hsend])
        rw [hstep]
        exact .inl ⟨rfl, hnext, .sends rfl (hsame.trans hevent) rfl hreply' herror',
          honward.mono (by simp)⟩
      | finished result =>
        cases result with
        | ok _ =>
          obtain ⟨hthen, honward'⟩ := hnext.happened hbeforeReply
          rw [hevent] at hstep
          exact .inr ⟨_, _, _, hthen, honward.trans honward', honward'.isHeld reply (by simp) hreply',
            .both (honward'.isHeld error (by simp) herror'), hbeforeError, hbeforeAgain, hstep⟩
        | error failure =>
          obtain ⟨hlast, hlet⟩ := hnext.letsGo []
            (Connection.changes_dropWaiters c' (some error) reply)
          rw [hstep]
          exact .inl ⟨rfl, hlast, .unsent rfl rfl, (honward.mono (by simp)).trans (hlet (by simp))⟩
  | hears hpoll hsent hreply hlistening =>
    cases hcall.symm.trans hpoll
    rw [hsent] at hstep
    exact .inr ⟨_, _, _, h.healthy, .refl _ _, hreply, hlistening, hbeforeError, hbeforeAgain, hstep⟩
  | unsent hpoll hsent => cases hcall.symm.trans hpoll
  | answered hpoll hsent hanswers => cases hcall.symm.trans hpoll

theorem Heeds.comes {c : Connection} (h : Heeds event reply error s now looks c waiter? deadline)
    (hne : reply ≠ error) :
    Comes event reply error c (Call.hearOver c now event reply waiter? deadline looks) :=
  comes_hearOver hne h.healthy h.held h.listening h.beforeError h.beforeAgain event now deadline

theorem Inv.step (h : Inv event reply error s) {m : Move} (hspares : Spares [reply, error] m.events) :
    Inv event reply error (s.step m) ∧ Onward [] s.connection (s.step m).connection := by
  obtain ⟨hhealthy, hstands, honward⟩ : Healthy (s.step m).connection ∧
      Stands event reply error (s.step m) ∧ Onward [] s.connection (s.step m).connection := by
    cases m with
    | event what =>
      obtain ⟨hhealthy, honward⟩ := h.healthy.happened hspares
      exact ⟨hhealthy, h.stands.onward h.healthy.failsClosed honward, honward.mono (by simp)⟩
    | poll now looks =>
      cases hpoll : s.poll with
      | finished outcome =>
        rw [step_poll_of_finished hpoll]
        exact ⟨h.healthy, h.stands, .refl _ _⟩
      | pending call =>
        rcases h.poll_cases hpoll hspares now with ⟨-, hsending⟩ | ⟨c, waiter?, deadline, hheeds⟩
        · exact hsending
        · have hcomes := hheeds.comes h.distinct
          rw [hheeds.step]
          exact ⟨hcomes.healthy, hcomes.stands, (hcomes.after hheeds.onward).onward⟩
  exact ⟨⟨hhealthy, h.distinct, (honward.eventOf reply h.reply_lt).trans h.tag,
    Nat.lt_of_lt_of_le h.reply_lt honward.length_le, hstands⟩, honward⟩

theorem Inv.run (h : Inv event reply error s) {moves : List Move}
    (hspares : ∀ m ∈ moves, Spares [reply, error] m.events) :
    Inv event reply error (s.run moves) := by
  induction moves generalizing s with
  | nil => exact h
  | cons m moves ih =>
    exact ih (h.step (hspares m List.mem_cons_self)).1 fun other hother =>
      hspares other (List.mem_cons_of_mem m hother)

/-- A waiter that is registered. -/
theorem Healthy.register (h : Healthy c) (kept : List Nat) {id : Nat}
    (hregister : c.register event = .ok (id, c')) :
    Healthy c' ∧ Onward kept c c' ∧ id = c.exchange.mailboxes.length ∧
      c'.exchange.eventOf id = event ∧ c'.exchange.isHeld id = true ∧
      id < c'.exchange.mailboxes.length := by
  have hchanges := Connection.changes_register hregister
  have hevolves : Evolves "" [] c.exchange c'.exchange :=
    hchanges.exchange.then_evolves (.refl _)
  obtain ⟨hhealthy, honward⟩ := h.evolves kept hevolves hchanges.released
  have hheld := hchanges.exchange.isHeld h.sound id (by simp)
  rw [Connection.register] at hregister
  cases hregister' : c.exchange.register event with
  | error failure =>
    rw [hregister'] at hregister
    cases hregister
  | ok r =>
    rw [hregister'] at hregister
    cases hregister
    obtain ⟨-, hid, registry, hsame, -⟩ := register_cases h.sound hregister'
    refine ⟨hhealthy, honward (by simp), hid, ?_, hheld, lt_of_isHeld hheld⟩
    show r.2.eventOf r.1 = event
    rw [hsame, eventOf_extended, if_pos hid]

/-- It is the case when a request begins. -/
theorem Begins.inv {payload : Payload} {limit : Option Nat} {events : List Reception.Event}
    (h : Begins event payload limit reply error c events s) (hhealthy : Healthy c)
    (hspares : Spares [reply, error] events) : Inv event reply error s := by
  cases h with
  | @mk registered listening c' first second sending hreply herror hsend =>
    have hfirst : Spares [reply] first := fun what hwhat id hid =>
      hspares what (by simp [hwhat]) id (by simp [List.mem_singleton.mp hid])
    have hsecond : Spares [reply, error] second := fun what hwhat =>
      hspares what (by simp [hwhat])
    obtain ⟨hregistered, -, hid, htag, hheld, hlt⟩ := hhealthy.register [] hreply
    obtain ⟨hbetween, honward⟩ := hregistered.happened hfirst
    have herror' := (register_of_registerError herror).2
    obtain ⟨hlistening, honward', hid', -, hheld', -⟩ := hbetween.register [reply] herror'
    obtain ⟨hready, honward''⟩ := hlistening.happened hsecond
    have hchanges := Connection.changes_beginSend hsend (Connection.changes_self _)
    have hevolves : Evolves "" [] (listening.happened second).exchange c'.exchange :=
      hchanges.exchange.then_evolves (.refl _)
    obtain ⟨hlast, hqueues⟩ := hready.evolves [reply, error] hevolves hchanges.released
    -- the reply's waiter goes through all of it, the other is behind it
    have hboth := honward''.trans (hqueues (by simp))
    have hwhole := (honward.trans honward').trans (hboth.mono (by simp))
    have hlt' := Nat.lt_of_lt_of_le hlt honward.length_le
    refine ⟨hlast, ?_, (hwhole.eventOf reply hlt).trans htag,
      Nat.lt_of_lt_of_le hlt hwhole.length_le, .sends rfl (Connection.event_beginSend hsend) rfl
        (hwhole.isHeld reply (by simp) hheld) (hboth.isHeld error (by simp) hheld')⟩
    omega

/-! ### Polls with nothing in between -/

/-- Whoever waits is told of a close, and nobody alone. -/
theorem Healthy.failTogether (h : Healthy c) (hheld : c.exchange.isHeld reply = true)
    (waiter? : Option Nat) : Call.FailTogether c reply waiter? := by
  intro id _ failure hfailed hnone
  rw [h.outcome?] at hfailed hnone
  have hdone := isWaiting_of_closed h.sound (h.failsClosed id failure hfailed) reply
  rw [isWaiting_eq, hheld, hnone] at hdone
  cases hdone

/-- A poll with nothing in between is the poll of a call. -/
theorem Inv.pollOver_atOnce (h : Inv event reply error s) {call : Call}
    (hcall : s.poll = .pending call) (now : Nat) :
    call.pollOver s.connection now .atOnce = call.poll s.connection now := by
  cases h.stands with
  | @sends sending limit hpoll hevent hsent hreply herror =>
    cases hcall.symm.trans hpoll
    rw [Call.pollOver, Call.poll]
    have hwrite := Connection.changes_pollSend s.connection sending
    cases hsend : s.connection.pollSend sending with
    | mk result c' =>
      rw [hsend] at hwrite
      have hevolves : Evolves Connection.peerWentAway [] s.connection.exchange c'.exchange :=
        hwrite.exchange.evolves
      obtain ⟨hnext, honward⟩ := h.healthy.evolves [reply] hevolves hwrite.released
      have hreply' := (honward (by simp)).isHeld reply (by simp) hreply
      cases result with
      | pending sending' => rfl
      | finished result =>
        cases result with
        | ok _ => exact Call.hearOver_atOnce (hnext.failTogether hreply' (some error)) _ _
        | error failure => rfl
  | hears hpoll hsent hreply hlistening =>
    cases hcall.symm.trans hpoll
    exact Call.hearOver_atOnce (h.healthy.failTogether hreply _) _ _
  | unsent hpoll hsent => cases hcall.symm.trans hpoll
  | answered hpoll hsent hanswers => cases hcall.symm.trans hpoll

end Inquiry

end EnvelopeClient
