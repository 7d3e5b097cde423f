import EnvelopeClient.Proofs.Connection.Owners
import EnvelopeClient.Proofs.Connection.Reading

/-!
# The life of a waiter

A run of a session is a list of moves, in any order: callers act on the connection, the peer writes
and ends its stream, the reader takes a step or vanishes, faults strike. Each of the parties can
close the connection. `lifecycle` is what a waiter can rely on in every run; it follows from
`Session.Sound`, which every move keeps (`Sound.move`), and from what one move does to the exchange
(`move_cases`).
-/

namespace EnvelopeClient

open Exchange

/-! ### What the reader does -/

namespace Connection

/-- Why the reader closes the connection if its next step does. -/
def readerReason (c : Connection) : String :=
  if c.cancelled then closedLocally
  else
    match c.reader, c.inbound.trap with
    | .running _ false _, some (.fails fault) => streamError fault.toFailure
    | _, _ => streamClosed

variable {c c' : Connection}

/-- A frame closes nothing. -/
theorem takes_dispatch (c : Connection) (frame : Frame) (reason : String) :
    Takes reason c.exchange (c.dispatch frame).exchange ∧
      (c.dispatch frame).released = c.released := by
  cases frame with
  | envelope e => exact ⟨.message e, rfl⟩
  | malformed text => exact ⟨.nothing, rfl⟩

/-- A read fails only of a fault that was to come. -/
theorem trap_of_failed {p p' : Inbound} {room : Nat} {fault : IoFault}
    (h : p.read room = (.failed fault, p')) : p.trap = some (.fails fault) := by
  unfold Inbound.read at h
  cases htrap : p.trap with
  | none =>
    simp only [htrap] at h
    split at h
    · split at h <;> cases h
    · cases h
  | some trap =>
    cases trap <;> simp only [htrap] at h <;> cases h
    rfl

/-- A step of the reader delivers one message, or closes the connection, or does not concern the
waiters. -/
theorem Reads.takes {r : Reading} (h : Reads c r c') :
    Takes c.readerReason c.exchange c'.exchange ∧ c'.released = c.released := by
  cases h with
  | stop _ hcancelled =>
    have hreason : c.readerReason = closedLocally := if_pos hcancelled
    rw [hreason]
    exact ⟨.close, rfl⟩
  | @failed _ _ fault _ hreader hcancelled hread =>
    have hreason : c.readerReason = streamError fault.toFailure := by
      simp [readerReason, hcancelled, hreader, trap_of_failed hread]
    rw [hreason]
    exact ⟨.close, rfl⟩
  | finish hreader hcancelled _ =>
    have hreason : c.readerReason = streamClosed := by simp [readerReason, hcancelled, hreader]
    rw [hreason]
    exact ⟨.close, rfl⟩
  | @frame _ rest f => exact takes_dispatch { c with reader := .running rest true false } f _
  | @lastFrame _ rest f => exact takes_dispatch { c with reader := .running rest true true } f _
  | bytes _ _ _ | ended _ _ _ | rest _ _ _ => exact ⟨.nothing, rfl⟩

theorem takes_readerStep (h : c.readerStep = some c') :
    Takes c.readerReason c.exchange c'.exchange ∧ c'.released = c.released := by
  obtain ⟨r, -, hreads⟩ := reads_readerStep h
  exact hreads.takes

theorem evolves_readerStep (h : c.readerStep = some c') :
    Evolves c.readerReason [] c.exchange c'.exchange ∧ c'.released = c.released := by
  obtain ⟨htakes, hreleased⟩ := takes_readerStep h
  exact ⟨htakes.evolves, hreleased⟩

end Connection

namespace Session

/-! ### Runs -/

/-- One thing that happens to a session. -/
inductive Move where
  /-- A user acts, or the peer. -/
  | act (action : Action)
  /-- A client begins a request. -/
  | ask (name event : String) (payload : Payload) (limit : Option Nat)
  /-- The reader takes a step, if it can. -/
  | reader
  /-- The reader vanishes without closing the connection. -/
  | abort

/-- Lets go of a connection nobody refers to. -/
def letGo (s : Session) : Session :=
  if s.isHeld || s.connection.released then s
  else { s with connection := s.connection.release }

/-- What a move does. -/
def move (s : Session) : Move → Session
  | .act action => (s.act action).2.letGo
  | .ask name event payload limit =>
    (s.withConnection fun c =>
      s.answerPoll name (c.ask s.now event payload limit)).2.letGo
  | .reader => { s with connection := s.connection.readerStep.getD s.connection }
  | .abort => { s with connection := s.connection.abortReader }

/-- The session behind moves. -/
def run (s : Session) (moves : List Move) : Session := moves.foldl move s

/-- The steps of the reader are moves. -/
theorem run_reader (s : Session) (n : Nat) :
    s.run (List.replicate n .reader) =
      { s with connection := s.connection.settleFor n } := by
  induction n generalizing s with
  | zero => rfl
  | succ n ih =>
    -- the first step, and a reader that rests goes on resting
    rw [List.replicate_succ, run, List.foldl_cons, ← run, ih, move]
    cases hstep : s.connection.readerStep with
    | some c => simp [Connection.settleFor, hstep]
    | none =>
      have hrest : s.connection.settleFor n = s.connection := by
        cases n <;> simp [Connection.settleFor, hstep]
      simp [Connection.settleFor, hstep, hrest]

/-- A step of a session is a move and what the reader does until it rests. -/
theorem step_eq_run (s : Session) (action : Action) :
    ∃ n, (s.step action).2 = s.run (.act action :: List.replicate n .reader) := by
  refine ⟨(s.act action).2.letGo.connection.work, ?_⟩
  rw [run, List.foldl_cons, ← run, run_reader, move]
  simp only [step, rest, letGo, Connection.settle]
  split <;> rfl

/-- Why the connection closes if a move closes it. -/
def closingReason (s : Session) : Move → String
  | .act action => action.closingReason
  | .reader => s.connection.readerReason
  | .ask _ _ _ _ | .abort => Connection.peerWentAway

/-- What holds of every session: the connection is released once nobody refers to it, nobody is left
to be given anything behind a close, and while the connection is not gone the registry knows who
waits and every waiter has its owner. -/
structure Sound (s : Session) : Prop where
  released : s.connection.released = !s.isHeld
  exchange : s.connection.isGone = false → s.connection.exchange.Sound
  owns : s.connection.isGone = false → Owns s.handles s.connection.exchange
  empty : s.connection.status = .closed → s.connection.exchange.registry.queues = []
  proper : s.connection.exchange.Proper

theorem sound_start (peer : String) (capacity : Option Nat) : (start peer capacity).Sound where
  released := rfl
  exchange _ := sound_opened
  owns _ := ⟨List.nodup_nil, by simp [start, waitersOf]⟩
  empty _ := rfl
  proper := proper_opened

variable {s t : Session}

/-- Either somebody has to let go of the connection, or nothing happens. -/
theorem letGo_cases (s : Session) :
    s.letGo = s ∧ (s.isHeld = true ∨ s.connection.released = true) ∨
      s.letGo = { s with connection := s.connection.release } ∧ s.isHeld = false := by
  rw [letGo]
  cases hheld : s.isHeld with
  | true => exact .inl ⟨rfl, .inl rfl⟩
  | false =>
    cases hreleased : s.connection.released with
    | true => exact .inl ⟨by simp, .inr rfl⟩
    | false => exact .inr ⟨by simp, rfl⟩

theorem exchange_letGo (s : Session) :
    s.letGo.connection.exchange = s.connection.exchange := by
  rcases letGo_cases s with ⟨heq, -⟩ | ⟨heq, -⟩ <;> rw [heq]
  rfl

/-- A session that is as it should be, but for a connection that is still to be let go. -/
theorem sound_letGo (hreleased : s.connection.released = true → s.isHeld = false)
    (hexchange : s.connection.isGone = false →
      s.connection.exchange.Sound ∧ Owns s.handles s.connection.exchange)
    (hempty : s.connection.status = .closed → s.connection.exchange.registry.queues = [])
    (hproper : s.connection.exchange.Proper) : s.letGo.Sound := by
  rcases letGo_cases s with ⟨heq, hcase⟩ | ⟨heq, hheld⟩
  · rw [heq]
    refine ⟨?_, fun hgone => (hexchange hgone).1, fun hgone => (hexchange hgone).2, hempty,
      hproper⟩
    rcases hcase with hheld | hdone
    · cases hc : s.connection.released with
      | true =>
        rw [hreleased hc] at hheld
        cases hheld
      | false =>
        rw [hheld]
        rfl
    · rw [hdone, hreleased hdone]
      rfl
  · rw [heq]
    have hgone : s.connection.release.isGone = false → s.connection.isGone = false := by
      intro hgone
      have hreading : s.connection.isReading = true := by
        simpa [Connection.isGone, Connection.release, Connection.isReading] using hgone
      simp [Connection.isGone, hreading]
    refine ⟨?_, fun h => (hexchange (hgone h)).1, fun h => (hexchange (hgone h)).2, hempty,
      hproper⟩
    show true = !s.isHeld
    rw [hheld]
    rfl

theorem Sound.isHeld_of_gone (h : s.Sound) (hgone : s.connection.isGone = true) :
    s.isHeld = false := by
  have hreleased : s.connection.released = true := by
    rw [Connection.isGone, Bool.and_eq_true] at hgone
    exact hgone.1
  rw [h.released] at hreleased
  simpa using hreleased

theorem Sound.not_gone_of_owned (h : s.Sound) (howned : s.owned = true) :
    s.connection.isGone = false := by
  cases hgone : s.connection.isGone with
  | false => rfl
  | true =>
    have hheld := h.isHeld_of_gone hgone
    rw [isHeld_of_owned howned] at hheld
    cases hheld

/-- Behind whatever goes as an action does, a session is sound once the connection is let go. -/
theorem Sound.of_goes (h : s.Sound) (hgone : s.connection.isGone = false) {reason : String}
    (hgoes : Goes reason s t) : t.letGo.Sound := by
  obtain ⟨ids, hchanges⟩ := hgoes.changes
  have hsound := hchanges.exchange.sound (h.exchange hgone)
  refine sound_letGo ?_ (fun _ => ⟨hsound, hgoes.owns⟩) hsound.closed
    (hchanges.exchange.proper (h.exchange hgone) h.proper)
  intro hreleased
  refine hgoes.held ?_
  rw [hchanges.released, h.released] at hreleased
  simpa using hreleased

theorem Sound.of_keeps (h : s.Sound) (hgone : s.connection.isGone = true)
    (hchanges : Connection.Changes Keeps s.connection t.connection) (hheld : t.isHeld = false) :
    t.letGo.Sound := by
  refine sound_letGo (fun _ => hheld) ?_ ?_ (hchanges.exchange.proper h.proper)
  · intro hgone'
    rw [hchanges.isGone, hgone] at hgone'
    cases hgone'
  · intro hclosed
    exact hchanges.exchange.empty (h.empty (hchanges.exchange.status.symm.trans hclosed))

/-- What a client's request does. -/
theorem ask_goes (h : s.Sound) (howned : s.owned = true) (name event : String) (payload : Payload)
    (limit : Option Nat) :
    Goes Connection.peerWentAway s
      (s.answerPoll name (s.connection.ask s.now event payload limit)).2 := by
  have hgone := h.not_gone_of_owned howned
  exact goes_of_begins (h.owns hgone) (h.exchange hgone) howned
    (Connection.begins_ask (h.exchange hgone) hgone s.now event payload limit)

/-- The reader of a connection that is gone does nothing. -/
theorem readerStep_of_gone {c : Connection} (hgone : c.isGone = true) : c.readerStep = none := by
  rw [Connection.isGone, Connection.isReading] at hgone
  rw [Connection.readerStep]
  cases hreader : c.reader with
  | ended => rfl
  | running intake readable atEnd => simp [hreader] at hgone

/-- Nothing is given to anybody once the connection is gone, and it stays gone. -/
theorem keeps_move_of_gone (h : s.Sound) (hgone : s.connection.isGone = true) (m : Move) :
    s.connection.exchange.Keeps (s.move m).connection.exchange ∧
      (s.move m).connection.isGone = true := by
  -- nobody is left who could make a call, so only waits and drops are left
  have hheld := h.isHeld_of_gone hgone
  have hletGo : ∀ t : Session, Connection.Changes Keeps s.connection t.connection →
      s.connection.exchange.Keeps t.letGo.connection.exchange ∧
        t.letGo.connection.isGone = true := by
    intro t hchanges
    have hgone' := hchanges.isGone.trans hgone
    rcases letGo_cases t with ⟨heq, -⟩ | ⟨heq, -⟩
    · rw [heq]
      exact ⟨hchanges.exchange, hgone'⟩
    · rw [heq]
      refine ⟨hchanges.exchange, ?_⟩
      rw [Connection.isGone, Bool.and_eq_true] at hgone'
      simpa [Connection.isGone, Connection.release, Connection.isReading] using hgone'.2
  have hself : Connection.Changes Keeps s.connection s.connection := ⟨.refl _, rfl, rfl⟩
  cases m with
  | act action => exact hletGo _ (act_keeps hgone hheld action).1
  | ask name event payload limit =>
    rw [move, withConnection, if_neg (by simp [(isHeld_eq_false.mp hheld).1])]
    exact hletGo s hself
  | reader =>
    rw [move, readerStep_of_gone hgone]
    exact ⟨.refl _, hgone⟩
  | abort =>
    refine ⟨.refl _, ?_⟩
    rw [Connection.isGone, Bool.and_eq_true] at hgone
    simpa [move, Connection.isGone, Connection.abortReader, Connection.isReading] using hgone.1

/-- A connection that is there behind a move was there before it. -/
theorem not_gone_of_move (hs : s.Sound) {m : Move} (h : (s.move m).connection.isGone = false) :
    s.connection.isGone = false := by
  cases hgone : s.connection.isGone with
  | false => rfl
  | true =>
    rw [(keeps_move_of_gone hs hgone m).2] at h
    cases h

/-- What one move does to the exchange while the connection is not gone. -/
theorem evolves_move (h : s.Sound) (hgone : s.connection.isGone = false) (m : Move) :
    ∃ ids, Evolves (s.closingReason m) ids s.connection.exchange
      (s.move m).connection.exchange := by
  cases m with
  | act action =>
    obtain ⟨ids, hchanges⟩ := (act_goes (h.owns hgone) (h.exchange hgone) hgone action).changes
    rw [move, exchange_letGo]
    exact ⟨ids, hchanges.exchange⟩
  | ask name event payload limit =>
    rw [move, exchange_letGo, withConnection]
    split
    · next howned =>
      obtain ⟨ids, hchanges⟩ := (ask_goes h howned name event payload limit).changes
      exact ⟨ids, hchanges.exchange⟩
    · exact ⟨[], .refl _⟩
  | reader =>
    rw [move]
    cases hstep : s.connection.readerStep with
    | none => exact ⟨[], .refl _⟩
    | some c => exact ⟨[], (Connection.evolves_readerStep hstep).1⟩
  | abort => exact ⟨[], .refl _⟩

/-- What one move does to the exchange. -/
theorem move_cases (h : s.Sound) (m : Move) :
    (s.connection.exchange.Sound ∧ ∃ ids, Evolves (s.closingReason m) ids s.connection.exchange
      (s.move m).connection.exchange) ∨
    s.connection.exchange.Keeps (s.move m).connection.exchange := by
  cases hgone : s.connection.isGone with
  | true => exact .inr (keeps_move_of_gone h hgone m).1
  | false => exact .inl ⟨h.exchange hgone, evolves_move h hgone m⟩

/-- Every move keeps a session sound. -/
theorem Sound.move (h : s.Sound) (m : Move) : (s.move m).Sound := by
  cases m with
  | act action =>
    rw [Session.move]
    cases hgone : s.connection.isGone with
    | false => exact h.of_goes hgone (act_goes (h.owns hgone) (h.exchange hgone) hgone action)
    | true =>
      obtain ⟨hchanges, hheld⟩ := act_keeps hgone (h.isHeld_of_gone hgone) action
      exact h.of_keeps hgone hchanges hheld
  | ask name event payload limit =>
    rw [Session.move, withConnection]
    split
    · next howned =>
      exact h.of_goes (h.not_gone_of_owned howned) (ask_goes h howned name event payload limit)
    · refine sound_letGo ?_ (fun hgone => ⟨h.exchange hgone, h.owns hgone⟩) h.empty h.proper
      intro hreleased
      rw [h.released] at hreleased
      simpa using hreleased
  | reader =>
    rw [Session.move]
    cases hstep : s.connection.readerStep with
    | none => exact h
    | some c =>
      have hgone : s.connection.isGone = false := by
        cases hgone : s.connection.isGone with
        | false => rfl
        | true =>
          rw [readerStep_of_gone hgone] at hstep
          cases hstep
      -- the reader lets go of nobody, so the handles own what they owned
      obtain ⟨hevolves, hreleased⟩ := Connection.evolves_readerStep hstep
      have hsound := hevolves.sound (h.exchange hgone)
      have howns := (h.owns hgone).evolves (h.exchange hgone) (by simp) hevolves
      exact ⟨hreleased.trans h.released, fun _ => hsound, fun _ => howns, hsound.closed,
        hevolves.proper (h.exchange hgone) h.proper⟩
  | abort =>
    have hgone : s.connection.abortReader.isGone = false → s.connection.isGone = false := by
      intro hgone
      have hreleased : s.connection.released = false := by
        simpa [Connection.isGone, Connection.abortReader, Connection.isReading] using hgone
      simp [Connection.isGone, hreleased]
    exact ⟨h.released, fun h' => h.exchange (hgone h'), fun h' => h.owns (hgone h'), h.empty,
      h.proper⟩

theorem Sound.run (h : s.Sound) (moves : List Move) : (s.run moves).Sound := by
  induction moves generalizing s with
  | nil => exact h
  | cons m moves ih => exact ih (h.move m)

/-! ### What waiters can rely on -/

/-- What a waiter gets, it gets for good. -/
theorem outcome?_move (h : s.Sound) {id : Nat} {r : Reply} (hr : s.connection.outcome? id = some r)
    (m : Move) : (s.move m).connection.outcome? id = some r := by
  rw [Connection.outcome?] at hr ⊢
  cases hgiven : s.connection.exchange.outcome? id with
  | some reply =>
    rw [hgiven] at hr
    cases hr
    have hkept : (s.move m).connection.exchange.outcome? id = some r := by
      rcases move_cases h m with ⟨hsound, ids, hevolves⟩ | hkeeps
      · exact hevolves.outcome?_eq hsound hgiven
      · rw [hkeeps.outcome?, hgiven]
    rw [hkept]
  | none =>
    rw [hgiven] at hr
    cases hgone : s.connection.isGone with
    | false => simp [hgone] at hr
    | true =>
      -- what it gets is that the connection is gone, and the connection stays gone
      obtain ⟨hkeeps, hgone'⟩ := keeps_move_of_gone h hgone m
      rw [hkeeps.outcome?, hgiven, hgone', hkeeps.eventOf]
      rw [hgone] at hr
      exact hr

theorem outcome?_run (h : s.Sound) {id : Nat} {r : Reply} (hr : s.connection.outcome? id = some r)
    (moves : List Move) : (s.run moves).connection.outcome? id = some r := by
  induction moves generalizing s with
  | nil => exact hr
  | cons m moves ih => exact ih (h.move m) (outcome?_move h hr m)

/-- Nothing is given to anybody behind a close. -/
theorem keeps_move_of_closed (h : s.Sound) (hclosed : s.connection.status = .closed) (m : Move) :
    s.connection.exchange.Keeps (s.move m).connection.exchange := by
  rcases move_cases h m with ⟨hsound, ids, hevolves⟩ | hkeeps
  · exact hevolves.keeps_of_closed hsound hclosed
  · exact hkeeps

theorem keeps_run_of_closed (h : s.Sound) (hclosed : s.connection.status = .closed)
    (moves : List Move) : s.connection.exchange.Keeps (s.run moves).connection.exchange := by
  induction moves generalizing s with
  | nil => exact .refl _
  | cons m moves ih =>
    have hkeeps := keeps_move_of_closed h hclosed m
    exact hkeeps.trans (ih (h.move m) (hkeeps.status.trans hclosed))

/-- A move that closes the connection fails everyone who waits. -/
theorem outcome?_of_close (h : s.Sound) {m : Move} (hopen : s.connection.status ≠ .closed)
    (hclosed : (s.move m).connection.status = .closed) {id : Nat}
    (hid : s.connection.exchange.isWaiting id = true) :
    (s.move m).connection.exchange.outcome? id =
      some (.error (closedFailure (s.connection.exchange.eventOf id) (s.closingReason m))) := by
  rcases move_cases h m with ⟨hsound, ids, hevolves⟩ | hkeeps
  · exact hevolves.outcome?_of_close hsound hopen hclosed hid
  · exact absurd (hkeeps.status.symm.trans hclosed) hopen

/-- Nobody who is held waits for ever: behind a close, or once the connection is gone, there is
something to receive. -/
theorem exists_reply (h : s.Sound)
    (hdone : s.connection.status = .closed ∨ s.connection.isGone = true) {id : Nat}
    (hid : id ∈ waitersOf s.handles) :
    ∃ r, s.connection.outcome? id = some r ∧
      ((∃ v, r = .ok v) ∨ ∃ text, r = .error (.notConnected text)) := by
  rw [Connection.outcome?]
  cases hgiven : s.connection.exchange.outcome? id with
  | some r =>
    refine ⟨r, rfl, ?_⟩
    rcases h.proper id r hgiven with hok | ⟨reason, rfl⟩
    · exact .inl hok
    · exact .inr ⟨_, rfl⟩
  | none =>
    cases hgone : s.connection.isGone with
    | true => exact ⟨_, rfl, .inr ⟨_, rfl⟩⟩
    | false =>
      have hclosed : s.connection.status = .closed := by
        rcases hdone with hclosed | hgone'
        · exact hclosed
        · rw [hgone] at hgone'
          cases hgone'
      have hwaiting : s.connection.exchange.isWaiting id = true := by
        simp [isWaiting_eq, hgiven, (h.owns hgone).held id hid]
      rw [isWaiting_of_closed (h.exchange hgone) hclosed] at hwaiting
      cases hwaiting

/-- Whether a handle is nothing but a wait for what a waiter is given. -/
def Receives (id : Nat) : Handle → Prop
  | .waiter waiter => waiter = id
  | .call (.receive waiter _ _) => waiter = id
  | .call _ => False

/-- A wait that is polled once there is something to receive gets it. -/
theorem act_receive {name : String} {handle : Handle} {id : Nat} {r : Reply}
    (hlookup : s.handles.lookup name = some handle) (hreceives : Receives id handle)
    (hr : s.connection.outcome? id = some r) (limit : Option Nat) :
    (s.act (.receive name limit)).1 = .finished (.reply r) := by
  cases handle with
  | waiter waiter =>
    obtain rfl : waiter = id := hreceives
    simp only [act, take, hlookup, Connection.receive, Call.poll,
      Connection.pollReceive_of_outcome? hr, answerPoll]
  | call call =>
    cases call with
    | receive waiter deadline keeps =>
      obtain rfl : waiter = id := hreceives
      simp only [act, take, hlookup, Call.poll, Connection.pollReceive_of_outcome? hr, answerPoll]
    | _ => cases hreceives

/-- The life of a waiter, in every run of a session.

What a waiter gets, it gets for good, and polling it any later still gives that. Closed is final:
nobody waits, nobody registers, no message is handed over, and a further close fails nobody. The
move that closes the connection tells everyone who waits its own reason. Behind a close, or once
reader and connection are gone without one, nobody who is held is left waiting: the next poll gives
what was delivered, or says that there is no connection. -/
theorem lifecycle (peer : String) (capacity : Option Nat) (moves later : List Move) :
    let s := (start peer capacity).run moves
    let t := s.run later
    (∀ id r, s.connection.outcome? id = some r → t.connection.outcome? id = some r ∧
      ∀ now deadline keeps,
        (Call.pollReceive t.connection now id deadline keeps).1 = .finished (.reply r)) ∧
    (s.connection.status = .closed → t.connection.status = .closed ∧ t.connection.pending = 0 ∧
      (∀ event, t.connection.register event =
        .error (.notConnected s!"cannot await '{event}' in state {Status.closed.name}")) ∧
      (∀ e, t.connection.exchange.deliver e = (false, t.connection.exchange)) ∧
      ∀ reason, t.connection.exchange.registry.close.1 = [] ∧
        t.connection.exchange.close reason = t.connection.exchange) ∧
    (∀ m, s.connection.status ≠ .closed → (s.move m).connection.status = .closed →
      ∀ id, s.connection.exchange.isWaiting id = true →
        (s.move m).connection.exchange.outcome? id =
          some (.error (closedFailure (s.connection.exchange.eventOf id) (s.closingReason m)))) ∧
    (s.connection.status = .closed ∨ s.connection.isGone = true →
      ∀ name handle id, (name, handle) ∈ s.handles → id ∈ handle.waiters →
        ∃ r, ((∃ v, r = .ok v) ∨ ∃ text, r = .error (.notConnected text)) ∧
          (∀ now deadline keeps,
            (Call.pollReceive s.connection now id deadline keeps).1 = .finished (.reply r)) ∧
          (s.handles.lookup name = some handle → Receives id handle → ∀ limit,
            (s.act (.receive name limit)).1 = .finished (.reply r))) := by
  intro s t
  have hs : s.Sound := (sound_start peer capacity).run moves
  refine ⟨?_, ?_, ?_, ?_⟩
  · intro id r hr
    have hr' := outcome?_run hs hr later
    refine ⟨hr', ?_⟩
    intro now deadline keeps
    rw [Connection.pollReceive_of_outcome? hr']
  · intro hclosed
    have hkeeps := keeps_run_of_closed hs hclosed later
    have hclosed' : t.connection.exchange.status = .closed := hkeeps.status.trans hclosed
    have hopen : t.connection.exchange.status ≠ .open := by
      rw [hclosed']
      decide
    have hempty := hkeeps.empty (hs.empty hclosed)
    refine ⟨hclosed', pending_of_empty hempty, ?_, deliver_of_empty hempty,
      close_of_empty hempty hclosed'⟩
    intro event
    rw [Connection.register, register_of_not_open hopen, hclosed']
  · intro m hopen hclosed id hid
    exact outcome?_of_close hs hopen hclosed hid
  · intro hdone name handle id hhandle hid
    obtain ⟨r, hr, hfinal⟩ := exists_reply hs hdone (mem_waitersOf hhandle hid)
    refine ⟨r, hfinal, ?_, ?_⟩
    · intro now deadline keeps
      rw [Connection.pollReceive_of_outcome? hr]
    · intro hlookup hreceives limit
      exact act_receive hlookup hreceives hr limit

/-- A caller closes a connection on which somebody waits, and closes it again. -/
theorem lifecycle_closed_twice :
    let s := (start "peer" none).run [.act (.register "waiter" "ready")]
    let t := (start "peer" none).run [.act (.register "waiter" "ready"), .act (.close "first")]
    t.connection.exchange.outcome? 0 =
        some (.error (closedFailure "ready" Connection.closedLocally)) ∧
      s.connection.exchange.isWaiting 0 = true ∧
      (t.run [.act (.close "second")]).connection.outcome? 0 =
        some (.error (closedFailure "ready" Connection.closedLocally)) ∧
      (t.run [.act (.close "second")]).connection.pending = 0 ∧
      ∃ r, (t.act (.receive "waiter" none)).1 = .finished (.reply r) := by
  intro s t
  obtain ⟨-, -, hclose, -⟩ := lifecycle "peer" none [.act (.register "waiter" "ready")] []
  obtain ⟨hkept, hclosed, -, hreceive⟩ := lifecycle "peer" none
    [.act (.register "waiter" "ready"), .act (.close "first")] [.act (.close "second")]
  have hgiven : t.connection.exchange.outcome? 0 =
      some (.error (closedFailure "ready" Connection.closedLocally)) :=
    hclose (.act (.close "first")) (by decide) rfl 0 rfl
  refine ⟨hgiven, rfl, (hkept 0 _ ?_).1, (hclosed rfl).2.1, ?_⟩
  · rw [Connection.outcome?, hgiven]
  · obtain ⟨r, -, -, hact⟩ :=
      hreceive (.inl rfl) "waiter" (.waiter 0) 0 List.mem_cons_self List.mem_cons_self
    exact ⟨r, hact rfl rfl none⟩

end Session

end EnvelopeClient
