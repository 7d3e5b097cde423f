import EnvelopeClient.Proofs.Connection.Asking
import EnvelopeClient.Proofs.Inquiry.Invariant
import Mathlib.Data.List.Induction

/-!
# What a request makes of what its reader takes

A request that nobody else shares its connection with is told exactly the first message of its tag
and the first error message among those the reader has taken since it began (`Inquiry.Told`). What a
poll of it comes to is therefore told from these messages (`Told.poll`), and so is what it ended with
(`Inquiry.fares_run`).
-/

namespace EnvelopeClient

open Exchange Json

/-! ### Messages that end a request -/

namespace Envelope

/-- The data of the first message of a tag. -/
def first? (tag : String) (messages : List Envelope) : Option Value :=
  (messages.find? (·.event = tag)).map (·.data)

/-- What a message that ends a request for a tag is to it. -/
def answer (event : String) (e : Envelope) : Reply :=
  if e.event = event then .ok e.data else .error (.remote (remoteMessage e.data))

/-- What the first message that ends a request for a tag is to it. -/
def firstArrival? (event : String) (messages : List Envelope) : Option Reply :=
  (messages.find? fun e => e.event = event ∨ e.event = errorEvent).map (answer event)

/-- What a request for a tag makes of messages that it finds all at once: a reply counts more than
an error message. -/
def together? (event : String) (messages : List Envelope) : Option Reply :=
  ((first? event messages).map .ok).or
    ((first? errorEvent messages).map fun data => .error (.remote (remoteMessage data)))

variable {tag event : String} {messages more : List Envelope} {e : Envelope} {r : Reply}

theorem first?_append (tag : String) (messages more : List Envelope) :
    first? tag (messages ++ more) = (first? tag messages).or (first? tag more) := by
  rw [first?, List.find?_append, Option.map_or]
  rfl

theorem first?_singleton (tag : String) (e : Envelope) :
    first? tag [e] = if e.event = tag then some e.data else none := by
  by_cases h : e.event = tag <;> simp [first?, h]

theorem firstArrival?_append (event : String) (messages more : List Envelope) :
    firstArrival? event (messages ++ more) =
      (firstArrival? event messages).or (firstArrival? event more) := by
  rw [firstArrival?, List.find?_append, Option.map_or]
  rfl

theorem firstArrival?_singleton (event : String) (e : Envelope) :
    firstArrival? event [e] =
      if e.event = event ∨ e.event = errorEvent then some (answer event e) else none := by
  by_cases h : e.event = event ∨ e.event = errorEvent <;> simp [firstArrival?, h]

/-- What comes first stays first. -/
theorem firstArrival?_of_front (h : messages <+: more) (hr : firstArrival? event messages = some r) :
    firstArrival? event more = some r := by
  obtain ⟨later, rfl⟩ := h
  rw [firstArrival?_append, hr, Option.some_or]

/-- Nothing has come if nothing is found. -/
theorem together?_eq_none_iff :
    together? event messages = none ↔ firstArrival? event messages = none := by
  simp only [together?, first?, firstArrival?, Option.or_eq_none_iff, Option.map_eq_none_iff,
    List.find?_eq_none, decide_eq_true_eq]
  constructor
  · rintro ⟨hevent, herror⟩ e he
    exact not_or.mpr ⟨hevent e he, herror e he⟩
  · intro h
    exact ⟨fun e he => (not_or.mp (h e he)).1, fun e he => (not_or.mp (h e he)).2⟩

/-- If a reply comes first, it is the first reply. -/
theorem first?_of_firstArrival {v : Value} (h : firstArrival? event messages = some (.ok v)) :
    first? event messages = some v := by
  induction messages with
  | nil => cases h
  | cons e messages ih =>
    rw [← List.singleton_append, firstArrival?_append, firstArrival?_singleton] at h
    rw [← List.singleton_append, first?_append, first?_singleton]
    by_cases hevent : e.event = event
    · rw [if_pos (.inl hevent), Option.some_or, answer, if_pos hevent] at h
      cases h
      rw [if_pos hevent, Option.some_or]
    · rw [if_neg hevent, Option.none_or]
      by_cases herror : e.event = errorEvent
      · rw [if_pos (.inr herror), Option.some_or, answer, if_neg hevent] at h
        cases h
      · rw [if_neg (not_or.mpr ⟨hevent, herror⟩), Option.none_or] at h
        exact ih h

/-- A reply that comes first is found, whatever else is. -/
theorem together?_of_reply {v : Value} (h : firstArrival? event messages = some (.ok v)) :
    together? event messages = some (.ok v) := by
  rw [together?, first?_of_firstArrival h]
  rfl

/-- Of messages in front of others among which a reply comes first, what comes first is found. -/
theorem firstArrival?_eq_together?_of_reply (h : messages <+: more) {v : Value}
    (hv : firstArrival? event more = some (.ok v)) :
    firstArrival? event messages = together? event messages := by
  cases harrival : firstArrival? event messages with
  | none => exact (together?_eq_none_iff.mpr harrival).symm
  | some r =>
    cases (firstArrival?_of_front h harrival).symm.trans hv
    exact (together?_of_reply harrival).symm

/-- One more message does not tell what comes first from what is found, unless it is a reply and an
error message came first. -/
theorem firstArrival?_eq_together?_concat
    (h : firstArrival? event messages = together? event messages)
    (he : ∀ failure, firstArrival? event messages = some (.error failure) → e.event ≠ event) :
    firstArrival? event (messages ++ [e]) = together? event (messages ++ [e]) := by
  cases harrival : firstArrival? event messages with
  | none =>
    obtain ⟨hreply, herror⟩ : first? event messages = none ∧ first? errorEvent messages = none := by
      rw [harrival] at h
      simpa [together?] using h.symm
    rw [firstArrival?_append, harrival, Option.none_or, firstArrival?_singleton, together?,
      first?_append, first?_append, hreply, herror, Option.none_or, Option.none_or, first?_singleton,
      first?_singleton, answer]
    by_cases hevent : e.event = event
    · rw [if_pos (.inl hevent), if_pos hevent, if_pos hevent]
      rfl
    · by_cases herror' : e.event = errorEvent
      · rw [if_pos (.inr herror'), if_neg hevent, if_neg hevent, if_pos herror']
        rfl
      · rw [if_neg (not_or.mpr ⟨hevent, herror'⟩), if_neg hevent, if_neg herror']
        rfl
  | some r =>
    rw [firstArrival?_append, harrival, Option.some_or]
    cases r with
    | ok v =>
      rw [together?, first?_append, first?_of_firstArrival harrival]
      rfl
    | error failure =>
      -- the reply is no message of these
      rw [harrival] at h
      have hreply : first? event messages = none := by
        cases hfirst : first? event messages with
        | none => rfl
        | some v => simp [together?, hfirst] at h
      rw [together?, hreply, Option.map_none, Option.none_or] at h
      rw [together?, first?_append, first?_append, hreply, first?_singleton,
        if_neg (he failure harrival)]
      cases herror : first? errorEvent messages with
      | none =>
        rw [herror] at h
        cases h
      | some data =>
        rw [herror] at h
        exact h

end Envelope

/-! ### What a reader takes -/

namespace Connection

variable {c c' : Connection} {r : Reading}

/-- The reader takes nothing any more. -/
def Stopped (c : Connection) : Prop := c.cancelled = true ∨ c.reader = .ended

/-- A connection that closes stops its reader. What happens hands one message to the exchange of a
connection that is open, or none, and does not touch it or closes it. -/
def Hands (c c' : Connection) (messages : List Envelope) : Prop :=
  (c'.exchange.status = .closed → c'.Stopped) ∧
    ((∃ e, messages = [e] ∧ c.exchange.status ≠ .closed ∧ c'.exchange = (c.exchange.deliver e).2) ∨
      messages = [] ∧
        (c'.exchange = c.exchange ∨ ∃ reason, c'.exchange = c.exchange.close reason))

theorem hands_dispatch (hopen : c.exchange.status ≠ .closed) (f : Frame) :
    Hands c (c.dispatch f) (Trace.delivered [.read (.frame f)]) := by
  obtain ⟨exchange, notices, hsame, hstatus⟩ := exists_dispatch c f
  refine ⟨fun hclosed => absurd ?_ hopen, ?_⟩
  · rw [hsame] at hclosed
    exact hstatus.symm.trans hclosed
  · cases f with
    | envelope e => exact .inl ⟨e, rfl, hopen, rfl⟩
    | malformed reason => exact .inr ⟨rfl, .inl rfl⟩

/-- So does a step of the reader. -/
theorem Reads.hands (h : Reads c r c') (hstopped : c.exchange.status = .closed → c.Stopped) :
    Hands c c' (Trace.delivered [.read r]) := by
  have hopen : ∀ {intake : Intake} {readable atEnd : Bool},
      c.reader = .running intake readable atEnd → c.cancelled = false →
        c.exchange.status ≠ .closed := by
    intro intake readable atEnd hreader hcancelled hclosed
    rcases hstopped hclosed with hstop | hended
    · cases hcancelled.symm.trans hstop
    · cases hreader.symm.trans hended
  cases h with
  | stop hreader hcancelled => exact ⟨fun _ => .inr rfl, .inr ⟨rfl, .inr ⟨_, rfl⟩⟩⟩
  | failed hreader hcancelled hread => exact ⟨fun _ => .inr rfl, .inr ⟨rfl, .inr ⟨_, rfl⟩⟩⟩
  | finish hreader hcancelled hdecode => exact ⟨fun _ => .inr rfl, .inr ⟨rfl, .inr ⟨_, rfl⟩⟩⟩
  | bytes hreader hcancelled hread =>
    exact ⟨fun hclosed => absurd hclosed (hopen hreader hcancelled), .inr ⟨rfl, .inl rfl⟩⟩
  | ended hreader hcancelled hread =>
    exact ⟨fun hclosed => absurd hclosed (hopen hreader hcancelled), .inr ⟨rfl, .inl rfl⟩⟩
  | rest hreader hcancelled hdecode =>
    exact ⟨fun hclosed => absurd hclosed (hopen hreader hcancelled), .inr ⟨rfl, .inl rfl⟩⟩
  | @frame intake rest f hreader hcancelled hdecode =>
    have hrunning : c.exchange.status ≠ .closed := hopen hreader hcancelled
    exact hands_dispatch (c := { c with reader := .running rest true false }) hrunning f
  | @lastFrame intake rest f hreader hcancelled hdecode =>
    have hrunning : c.exchange.status ≠ .closed := hopen hreader hcancelled
    exact hands_dispatch (c := { c with reader := .running rest true true }) hrunning f

end Connection

namespace Inquiry

open Connection

/-- Nobody but the request uses its connection: it is polled, with nothing in between, somebody
closes the connection, or something happens without a caller. -/
inductive Move.Alone : Move → Prop where
  | incident (what : Incident) : Alone (.event (.incident what))
  | close (now : Nat) : Alone (.event (.close now))
  | poll (now : Nat) : Alone (.poll now .atOnce)

/-- The messages the reader takes in a move. -/
def Move.hears (c : Connection) : Move → List Envelope
  | .event what => (Reception.entries c what).delivered
  | .poll _ _ => []

/-- The messages the reader takes in moves. -/
def heard (s : Inquiry) : List Move → List Envelope
  | [] => []
  | m :: moves => m.hears s.connection ++ (s.step m).heard moves

variable {event : String} {reply error : Nat} {messages : List Envelope} {c : Connection}
  {s : Inquiry}

theorem run_concat (s : Inquiry) (moves : List Move) (m : Move) :
    s.run (moves ++ [m]) = (s.run moves).step m := List.foldl_concat ..

theorem heard_append (s : Inquiry) (moves more : List Move) :
    s.heard (moves ++ more) = s.heard moves ++ (s.run moves).heard more := by
  induction moves generalizing s with
  | nil => rfl
  | cons first moves ih =>
    rw [List.cons_append, heard, heard, ih, List.append_assoc]
    rfl

theorem heard_concat (s : Inquiry) (moves : List Move) (m : Move) :
    s.heard (moves ++ [m]) = s.heard moves ++ m.hears (s.run moves).connection := by
  rw [heard_append, heard, heard, List.append_nil]

theorem Move.Alone.spares {m : Move} (h : m.Alone) (kept : List Nat) : Spares kept m.events := by
  intro what hwhat id _ hlets
  cases h with
  | incident | close =>
    cases List.mem_singleton.mp hwhat
    cases hlets
  | poll => cases hwhat

theorem hands_happen {what : Reception.Event} (halone : (Move.event what).Alone)
    (hstopped : c.exchange.status = .closed → c.Stopped) :
    Hands c (Reception.happen c what) (Reception.entries c what).delivered := by
  have haside : ∀ {c' : Connection}, c'.exchange = c.exchange → c'.cancelled = c.cancelled →
      (c'.reader = c.reader ∨ c'.reader = .ended) → Hands c c' [] := by
    intro c' hexchange hcancelled hreader
    refine ⟨fun hclosed => ?_, .inr ⟨rfl, .inl hexchange⟩⟩
    rw [hexchange] at hclosed
    rcases hreader with hsame | hended
    · rw [Stopped, hcancelled, hsame]
      exact hstopped hclosed
    · exact .inr hended
  cases halone with
  | close now =>
    obtain ⟨outbound, turns, nextTurn, hsame⟩ := close_eq c now
    rw [Reception.happen, hsame]
    exact ⟨fun _ => .inl rfl, .inr ⟨rfl, .inr ⟨_, rfl⟩⟩⟩
  | incident what =>
    cases what with
    | reader =>
      show Hands c (c.readerStep.getD c) (Trace.delivered (c.reading?.map Entry.read).toList)
      cases hstep : c.readerStep with
      | none =>
        rw [reading?_of_rest hstep]
        exact haside rfl rfl (.inl rfl)
      | some c' =>
        obtain ⟨r, hreading, hreads⟩ := reads_readerStep hstep
        rw [hreading]
        exact hreads.hands hstopped
    | trap operation trap => cases operation <;> exact haside rfl rfl (.inl rfl)
    | peerWrites bytes => exact haside rfl rfl (.inl rfl)
    | peerReads count => exact haside rfl rfl (.inl rfl)
    | peerEnds => exact haside rfl rfl (.inl rfl)
    | peerAbandons => exact haside rfl rfl (.inl rfl)
    | abort => exact haside rfl rfl (.inr rfl)

/-! ### What a request is told -/

/-- A waiter was given the first of some messages that is of a tag, and no other data. -/
def Given (tag : String) (id : Nat) (messages : List Envelope) (x : Exchange) : Prop :=
  ∀ v, x.outcome? id = some (.ok v) ↔ Envelope.first? tag messages = some v

/-- The request alone waits, and its waiters were given the first reply and the first error message
of those the reader has taken. -/
structure Told (event : String) (reply error : Nat) (messages : List Envelope) (c : Connection) :
    Prop extends Healthy c where
  accounts : Accounts [reply, error] c.exchange
  replyTag : c.exchange.eventOf reply = event
  errorTag : c.exchange.eventOf error = Envelope.errorEvent
  reply : Given event reply messages c.exchange
  error : Given Envelope.errorEvent error messages c.exchange
  stopped : c.exchange.status = .closed → c.Stopped

/-- A waiter has the first message of its tag, or there is none, and at most it was told of a close. -/
theorem Given.cases {tag : String} {id : Nat} {x : Exchange} (h : Given tag id messages x) :
    (∃ v, Envelope.first? tag messages = some v ∧ x.outcome? id = some (.ok v)) ∨
      Envelope.first? tag messages = none ∧
        (x.outcome? id = none ∨ ∃ failure, x.outcome? id = some (.error failure)) := by
  cases hfirst : Envelope.first? tag messages with
  | some v => exact .inl ⟨v, rfl, (h v).mpr hfirst⟩
  | none =>
    refine .inr ⟨rfl, ?_⟩
    cases hgiven : x.outcome? id with
    | none => exact .inl rfl
    | some r =>
      cases r with
      | ok v => cases hfirst.symm.trans ((h v).mp hgiven)
      | error failure => exact .inr ⟨failure, rfl⟩

/-- A message that is delivered is given to the waiter of its tag, if that was given none before. -/
theorem Given.deliver {tag : String} {id other : Nat} {x : Exchange}
    (h : Given tag id messages x) (haccounts : Accounts [id, other] x)
    (hlistens : x.Listens tag id (some other)) (hok : ∀ failure, x.outcome? id ≠ some (.error failure))
    (e : Envelope) : Given tag id (messages ++ [e]) (x.deliver e).2 := by
  intro v
  rw [hlistens.outcome?_deliver haccounts, Envelope.first?_append, Envelope.first?_singleton]
  rcases h.cases with ⟨v', hfirst, hgiven⟩ | ⟨hfirst, hnone | ⟨failure, hfailed⟩⟩
  · rw [hfirst, hgiven]
    simp
  · rw [hfirst, hnone, Option.none_or, Option.none_or]
    by_cases htag : e.event = tag <;> simp [htag]
  · exact absurd hfailed (hok failure)

/-- A close gives nobody a message. -/
theorem Given.close {tag : String} {id : Nat} {x : Exchange} (h : Given tag id messages x)
    (hsound : x.Sound) (reason : String) : Given tag id messages (x.close reason) := by
  intro v
  rw [← h v, outcome?_close hsound]
  split
  · next hwaiting =>
    rw [isWaiting_eq, Bool.and_eq_true, Option.isNone_iff_eq_none] at hwaiting
    simp [hwaiting.2]
  · rfl

/-- What happens tells the request what the reader takes. -/
theorem Told.happen (h : Told event reply error messages c) (hevent : event ≠ Envelope.errorEvent)
    {what : Reception.Event} (halone : (Move.event what).Alone) :
    Told event reply error (messages ++ (Reception.entries c what).delivered)
      (Reception.happen c what) := by
  obtain ⟨⟨reason, hevolves⟩, hreleased⟩ := Reception.evolves_happen h.isGone what
  have hlets : what.lets = [] := by cases halone <;> rfl
  rw [hlets] at hevolves
  obtain ⟨hhealthy, -⟩ := h.evolves [] hevolves hreleased
  have hlt : ∀ id ∈ [reply, error], id < c.exchange.mailboxes.length :=
    fun id hid => lt_of_isHeld (h.accounts.held id hid)
  have hreplyTag := (hevolves.eventOf_eq h.sound (hlt reply (by simp))).trans h.replyTag
  have herrorTag := (hevolves.eventOf_eq h.sound (hlt error (by simp))).trans h.errorTag
  obtain ⟨hstopped, hcases⟩ := hands_happen halone h.stopped
  obtain ⟨hwanes, hreply, herror⟩ : c.exchange.Wanes (Reception.happen c what).exchange ∧
      Given event reply (messages ++ (Reception.entries c what).delivered)
        (Reception.happen c what).exchange ∧
      Given Envelope.errorEvent error (messages ++ (Reception.entries c what).delivered)
        (Reception.happen c what).exchange := by
    rcases hcases with ⟨e, hone, hopen, hexchange⟩ | ⟨hnone, hsame | ⟨why, hclose⟩⟩
    · have hok : ∀ id failure, c.exchange.outcome? id ≠ some (.error failure) :=
        fun id failure hfailed => hopen (h.failsClosed id failure hfailed)
      have hlistens : c.exchange.Listens event reply (some error) :=
        ⟨h.replyTag, by simpa [h.errorTag] using hevent.symm⟩
      have hlistens' : c.exchange.Listens Envelope.errorEvent error (some reply) :=
        ⟨h.errorTag, by simpa [h.replyTag] using hevent⟩
      rw [hone, hexchange]
      exact ⟨wanes_deliver h.sound e, h.reply.deliver h.accounts hlistens (hok reply) e,
        h.error.deliver (h.accounts.perm (.swap _ _ [])) hlistens' (hok error) e⟩
    · rw [hnone, hsame, List.append_nil]
      exact ⟨.refl _, h.reply, h.error⟩
    · rw [hnone, hclose, List.append_nil]
      exact ⟨wanes_close h.sound why, h.reply.close h.sound why, h.error.close h.sound why⟩
  exact ⟨hhealthy, h.accounts.keeps hevolves hwanes, hreplyTag, herrorTag, hreply, herror, hstopped⟩

/-- What a request does at the write half tells it nothing. -/
theorem Told.aside (h : Told event reply error messages c) (outbound : Outbound) (turns : List Nat)
    (nextTurn : Nat) : Told event reply error messages { c with outbound, turns, nextTurn } :=
  ⟨⟨h.released, h.sound, h.proper, h.failsClosed⟩, h.accounts, h.replyTag, h.errorTag, h.reply,
    h.error, h.stopped⟩

/-! ### What a poll comes to -/

/-- How a request ends if `decision?` is what it makes of the messages there are: with that, or, if
there is none, because its time is up or with the failure of a close. -/
inductive Ends (event : String) (decision? : Option Reply) : Reply → Prop where
  | decided {r : Reply} (h : decision? = some r) : Ends event decision? r
  | late (h : decision? = none) (limit : Nat) :
      Ends event decision? (.error (Deadline.failure event limit))
  | closed (h : decision? = none) (reason : String) :
      Ends event decision? (.error (closedFailure event reason))

/-- A request that listens for error messages, and whether it has been sent. -/
inductive Asks (event : String) (reply error : Nat) : Call → Bool → Prop where
  | sends {sending : Sending} {limit : Option Nat} (h : sending.event = event) :
      Asks event reply error (.ask reply (some error) sending limit) false
  | hears (deadline : Option Deadline) :
      Asks event reply error (.hear event reply (some error) deadline) true

/-- What a request that was told of some messages comes to when it is polled. -/
inductive Polled (event : String) (reply error : Nat) (messages : List Envelope) :
    Inquiry → Prop where
  | waits {c : Connection} {call : Call} {sent : Bool} (hcall : Asks event reply error call sent)
      (htold : Told event reply error messages c)
      (hnone : sent = true → Envelope.together? event messages = none) :
      Polled event reply error messages ⟨c, .pending call, sent⟩
  | unsent (c : Connection) (outcome : Outcome) :
      Polled event reply error messages ⟨c, .finished outcome, false⟩
  | ended {r : Reply} (c : Connection) (hends : Ends event (Envelope.together? event messages) r) :
      Polled event reply error messages ⟨c, .finished (.reply r), true⟩

/-- The failure of a request's reply is that of a close. -/
theorem Told.closedFailure (h : Told event reply error messages c) {failure : Failure}
    (hfailed : c.exchange.outcome? reply = some (.error failure)) :
    ∃ reason, failure = Exchange.closedFailure event reason := by
  rcases h.proper reply _ hfailed with ⟨v, heq⟩ | ⟨reason, heq⟩
  · cases heq
  · cases heq
    exact ⟨reason, by rw [h.replyTag]⟩

/-- What the outcomes of its waiters are to a request is told from the messages. -/
theorem Told.verdict (h : Told event reply error messages c) :
    (∃ r, Call.verdict? (c.exchange.outcome? reply) (c.exchange.outcome? error) = some r ∧
      Ends event (Envelope.together? event messages) r) ∨
    Call.verdict? (c.exchange.outcome? reply) (c.exchange.outcome? error) = none ∧
      Envelope.together? event messages = none := by
  rw [Envelope.together?]
  rcases h.reply.cases with ⟨v, hfirst, hgiven⟩ | ⟨hfirst, hreply⟩
  · rw [hfirst, hgiven]
    exact .inl ⟨.ok v, rfl, .decided rfl⟩
  rcases h.error.cases with ⟨data, hfirst', hgiven⟩ | ⟨hfirst', herror⟩
  · -- an error message decides, whether or not the connection closed
    rw [hfirst, hfirst', hgiven]
    rcases hreply with hnone | ⟨failure, hfailed⟩
    · rw [hnone]
      exact .inl ⟨_, rfl, .decided rfl⟩
    · rw [hfailed]
      exact .inl ⟨_, rfl, .decided rfl⟩
  · rw [hfirst, hfirst']
    rcases hreply with hnone | ⟨failure, hfailed⟩
    · rw [hnone]
      rcases herror with hnone' | ⟨failure', hfailed'⟩
      · exact .inr ⟨by rw [hnone']; rfl, rfl⟩
      · exact .inr ⟨by rw [hfailed']; rfl, rfl⟩
    · obtain ⟨reason, rfl⟩ := h.closedFailure hfailed
      rw [hfailed]
      rcases herror with hnone' | ⟨failure', hfailed'⟩
      · exact .inl ⟨_, by rw [hnone']; rfl, .closed rfl reason⟩
      · exact .inl ⟨_, by rw [hfailed']; rfl, .closed rfl reason⟩

/-- What looking for an answer comes to. -/
theorem Told.pollHear (h : Told event reply error messages c) (now : Nat)
    (deadline : Option Deadline) :
    Polled event reply error messages
      ⟨(Call.pollHear c now event reply (some error) deadline).2,
        (Call.pollHear c now event reply (some error) deadline).1, true⟩ := by
  rw [Call.pollHear, Option.bind_some, h.outcome?, h.outcome?]
  rcases h.verdict with ⟨r, hverdict, hends⟩ | ⟨hverdict, htogether⟩
  · rw [hverdict]
    exact .ended _ hends
  · rw [hverdict]
    cases Call.isPast deadline now with
    | some d => exact .ended _ (.late htogether d.limit)
    | none => exact .waits (.hears deadline) h fun _ => htogether

/-- What a poll comes to. -/
theorem Told.poll (h : Told event reply error messages c) {call : Call} {sent : Bool}
    (hcall : Asks event reply error call sent) (now : Nat) :
    Polled event reply error messages
      ⟨(call.poll c now).2, (call.poll c now).1, sent || call.getsSent c⟩ := by
  cases hcall with
  | hears deadline => exact h.pollHear now deadline
  | @sends sending limit hevent =>
    obtain ⟨outbound, turns, hsame⟩ := pollSend_eq c sending
    rw [Call.poll, Call.getsSent]
    cases hsend : c.pollSend sending with
    | mk result c' =>
      rw [hsend] at hsame
      cases result with
      | pending sending' =>
        have hevent' : sending'.event = event :=
          (event_pollSend (by rw [hsend])).trans hevent
        have htold := h.aside outbound turns c.nextTurn
        simp only [SendPoll.findsPeerGone] at hsame
        rw [hsame]
        exact .waits (.sends hevent') htold fun hsent => by cases hsent
      | finished result =>
        cases result with
        | error failure => exact .unsent _ _
        | ok _ =>
          have htold := h.aside outbound turns c.nextTurn
          simp only [SendPoll.findsPeerGone] at hsame
          rw [hsame]
          simp only [hevent]
          exact htold.pollHear now _

theorem Ends.eq_of_decided {decision? : Option Reply} {r r' : Reply} (h : Ends event decision? r')
    (hr : decision? = some r) : r' = r := by
  cases h with
  | decided h => exact Option.some.inj (h.symm.trans hr)
  | late h | closed h => cases h.symm.trans hr

/-- A poll of a request that has been sent ends it with what there is. -/
theorem Polled.finished (h : Polled event reply error messages s) (hsent : s.sent = true) {r : Reply}
    (hr : Envelope.together? event messages = some r) : s.poll = .finished (.reply r) := by
  cases h with
  | waits _ _ hnone => cases (hnone hsent).symm.trans hr
  | unsent => cases hsent
  | ended c hends => rw [hends.eq_of_decided hr]

/-! ### Runs -/

/-- A request that begins on a connection where nobody waits was told of nothing yet. -/
theorem Begins.told {payload : Payload} {limit : Option Nat}
    (h : Begins event payload limit reply error c [] s) (hhealthy : Healthy c)
    (haccounts : Accounts [] c.exchange) :
    event ≠ Envelope.errorEvent ∧ ∃ call, s.poll = .pending call ∧
      Asks event reply error call s.sent ∧ Told event reply error [] s.connection := by
  obtain ⟨registered, listening, c', sending, hreply, herror, hsend, rfl⟩ := h.cases_nil
  obtain ⟨hevent, herror⟩ := register_of_registerError herror
  obtain ⟨hregistered, -, hreply', htag, -, hlt⟩ := hhealthy.register [] hreply
  obtain ⟨hlistening, honward, herror', htag', -, -⟩ := hregistered.register [] herror
  have hfirst := haccounts.registers (changes_register hreply).exchange
  have hboth := hfirst.registers (changes_register herror).exchange
  have hnew : ∀ id ∈ [reply, error], listening.exchange.outcome? id = none := by
    intro id hid
    rw [(changes_register herror).exchange.outcome? hregistered.sound,
      (changes_register hreply).exchange.outcome? hhealthy.sound]
    refine outcome?_of_length_le ?_
    rcases List.mem_cons.mp hid with rfl | hid
    · exact Nat.le_of_eq hreply'.symm
    · rw [List.mem_singleton.mp hid, herror']
      omega
  obtain ⟨hopen, -, -, rfl⟩ := beginSend_cases hsend
  have hgiven : ∀ {tag id}, listening.exchange.outcome? id = none →
      Given tag id [] listening.exchange := by
    intro tag id hnone v
    rw [hnone]
    exact ⟨nofun, nofun⟩
  have htold : Told event reply error [] listening :=
    ⟨hlistening, hboth.perm (.swap _ _ []), (honward.eventOf reply hlt).trans htag, htag',
      hgiven (hnew reply (by simp)), hgiven (hnew error (by simp)),
      fun hclosed => by cases hclosed.symm.trans hopen⟩
  exact ⟨hevent, _, rfl, .sends (event_beginSend hsend), htold.aside _ _ _⟩

/-- What a poll comes to for a request that was told of some messages. -/
theorem polled {call : Call} (hinv : Inv event reply error s) (hpoll : s.poll = .pending call)
    (hcall : Asks event reply error call s.sent)
    (htold : Told event reply error messages s.connection) (now : Nat) :
    Polled event reply error messages (s.step (.poll now .atOnce)) := by
  rw [step_poll hpoll, hinv.pollOver_atOnce hpoll]
  exact htold.poll hcall now

/-- A request that has ended stays as it is. -/
theorem step_of_finished {outcome : Outcome} (h : s.poll = .finished outcome) (m : Move) :
    (s.step m).poll = .finished outcome ∧ (s.step m).sent = s.sent := by
  cases m with
  | event what => exact ⟨h, rfl⟩
  | poll now looks =>
    rw [step_poll_of_finished h]
    exact ⟨h, rfl⟩

/-- How a request fares in a run: it waits and was told of what the reader took, or was not sent, or
one of its polls ended it, with what it made of what the reader had taken by then. -/
inductive Fares (event : String) (reply error : Nat) (start : Inquiry) (moves : List Move) :
    Prop where
  | waits {call : Call} (hpoll : (start.run moves).poll = .pending call)
      (hcall : Asks event reply error call (start.run moves).sent)
      (htold : Told event reply error (start.heard moves) (start.run moves).connection) :
      Fares event reply error start moves
  | unsent {outcome : Outcome} (hpoll : (start.run moves).poll = .finished outcome)
      (hsent : (start.run moves).sent = false) : Fares event reply error start moves
  | ended {before after : List Move} {now : Nat} {call : Call} {r : Reply}
      (hmoves : moves = before ++ .poll now .atOnce :: after)
      (hbefore : (start.run before).poll = .pending call)
      (hpoll : (start.run moves).poll = .finished (.reply r))
      (hends : Ends event (Envelope.together? event (start.heard before)) r) :
      Fares event reply error start moves

variable {start : Inquiry} {moves : List Move}

theorem Fares.step (h : Fares event reply error start moves)
    (hinv : Inv event reply error (start.run moves)) (hevent : event ≠ Envelope.errorEvent)
    {m : Move} (halone : m.Alone) : Fares event reply error start (moves ++ [m]) := by
  have hrun := run_concat start moves m
  cases h with
  | @waits call hpoll hcall htold =>
    cases m with
    | event what =>
      have hnext := htold.happen hevent halone
      rw [← Move.hears, ← heard_concat] at hnext
      have hstill : (start.run (moves ++ [.event what])).poll = .pending call := by
        rw [hrun]
        exact hpoll
      refine .waits hstill ?_ ?_
      · rw [hrun]
        exact hcall
      · rw [hrun]
        exact hnext
    | poll now looks =>
      cases halone
      have hpolled := polled hinv hpoll hcall htold now
      have hheard : start.heard (moves ++ [.poll now .atOnce]) = start.heard moves := by
        rw [heard_concat]
        exact List.append_nil _
      rw [← hrun] at hpolled
      generalize hs : start.run (moves ++ [.poll now .atOnce]) = s at hpolled
      cases hpolled with
      | waits hcall htold _ =>
        exact .waits (by rw [hs]) (by rw [hs]; exact hcall) (by rw [hs, hheard]; exact htold)
      | unsent c outcome => exact .unsent (by rw [hs]) (by rw [hs])
      | ended c hends => exact .ended rfl hpoll (by rw [hs]) hends
  | @unsent outcome hpoll hsent =>
    obtain ⟨hsame, hsent'⟩ := step_of_finished hpoll m
    exact .unsent (hrun ▸ hsame) (hrun ▸ hsent'.trans hsent)
  | @ended before after now call r hmoves hbefore hpoll hends =>
    have hsplit : moves ++ [m] = before ++ .poll now .atOnce :: (after ++ [m]) := by
      rw [hmoves, List.append_assoc, List.cons_append]
    exact .ended hsplit hbefore (hrun ▸ (step_of_finished hpoll m).1) hends

section

variable {payload : Payload} {limit : Option Nat}
  (hbegins : Begins event payload limit reply error c [] start) (hhealthy : Healthy c)

include hbegins hhealthy

theorem inv_run (hmoves : ∀ m ∈ moves, m.Alone) : Inv event reply error (start.run moves) :=
  (hbegins.inv hhealthy fun _ h => absurd h List.not_mem_nil).run fun m hm =>
    (hmoves m hm).spares [reply, error]

/-- How every request fares that is alone on its connection. -/
theorem fares_run (haccounts : Accounts [] c.exchange) (hmoves : ∀ m ∈ moves, m.Alone) :
    Fares event reply error start moves := by
  obtain ⟨hevent, call, hpoll, hcall, htold⟩ := hbegins.told hhealthy haccounts
  induction moves using List.reverseRecOn with
  | nil => exact .waits hpoll hcall htold
  | append_singleton moves m ih =>
    have halone : ∀ m ∈ moves, m.Alone := fun m hm => hmoves m (List.mem_append_left _ hm)
    exact (ih halone).step (inv_run hbegins hhealthy halone) hevent (hmoves m (by simp))

end

end Inquiry

end EnvelopeClient
