import EnvelopeClient.Proofs.Connection.Deadlines
import EnvelopeClient.Proofs.Connection.Lifecycle
import Mathlib.Data.List.Induction

/-!
# Waiting within a time

A wait within a time begins at the first poll of a waiter that names a limit, and its deadline
counts from there. Whoever polls it again, and whatever limit that poll names, the deadline stays
where it is (`Session.asked_of_polls`). Every poll comes to what the waiter has been given, if there is
anything, and only otherwise looks at the clock (`Session.exists_inTime`).
-/

namespace EnvelopeClient

open Exchange Connection

namespace Call

/-- The waiter of a wait within a time, and its deadline. -/
def within? : Call → Option (Nat × Deadline)
  | .receive waiter (some deadline) _ => some (waiter, deadline)
  | _ => none

/-- A call that goes on goes on to the same deadline. -/
theorem GoesOn.within? {now : Nat} {call call' : Call} (h : call.GoesOn now call') :
    call'.within? = call.within? := by
  cases h <;> rfl

end Call

namespace Poll

/-- Whether what is left of a call, if anything is, waits for whatever time it takes. -/
def Timeless (poll : Poll) : Prop := ∀ call, poll = .pending call → call.within? = none

theorem timeless_failed (failure : Failure) : (Poll.failed failure).Timeless := by
  intro call hcall
  cases hcall

theorem timeless_poll {call : Call} (h : call.within? = none) (c : Connection) (now : Nat) :
    (call.poll c now).1.Timeless := by
  intro call' hcall'
  rw [(goesOn_poll hcall').within?, h]

end Poll

/-- What polling a wait answers. -/
def Answer.ofReply? : Option Reply → Answer
  | none => .pending
  | some r => .finished (.reply r)

namespace Connection

variable (c : Connection) (now : Nat)

theorem timeless_awaitOnce (event : String) : (c.awaitOnce now event).1.Timeless := by
  rw [awaitOnce]
  cases c.register event with
  | error failure => exact Poll.timeless_failed failure
  | ok r => exact Poll.timeless_poll rfl _ _

theorem timeless_send (event : String) (payload : Payload) :
    (c.send now event payload).1.Timeless := by
  rw [send]
  cases c.beginSend event payload with
  | error failure => exact Poll.timeless_failed failure
  | ok r => exact Poll.timeless_poll rfl _ _

theorem timeless_request (event : String) (payload : Payload) :
    (c.request now event payload).1.Timeless := by
  rw [request]
  cases c.register event with
  | error failure => exact Poll.timeless_failed failure
  | ok r =>
    simp only
    cases r.2.beginSend event payload with
    | error failure => exact Poll.timeless_failed failure
    | ok r => exact Poll.timeless_poll rfl _ _

theorem timeless_close : (c.close now).1.Timeless := by
  rw [close]
  exact Poll.timeless_poll rfl _ _

theorem timeless_ask (event : String) (payload : Payload) (limit : Option Nat) :
    (c.ask now event payload limit).1.Timeless := by
  intro call hcall
  obtain ⟨reply, error, s, -, hgoesOn⟩ := goesOn_ask now hcall
  rw [hgoesOn.within?]
  rfl

end Connection

/-- The wait within a time that a handle stands for. -/
def Handle.within? : Handle → Option (Nat × Deadline)
  | .waiter _ => none
  | .call c => c.within?

theorem Handle.eq_of_within? {handle : Handle} {id : Nat} {d : Deadline}
    (h : handle.within? = some (id, d)) : ∃ keeps, handle = .call (.receive id (some d) keeps) := by
  cases handle with
  | waiter waiter => cases h
  | call call =>
    cases call with
    | receive waiter deadline keeps =>
      cases deadline <;> cases h
      exact ⟨keeps, rfl⟩
    | _ => cases h

namespace Session

/-- The wait within a time that stands under a name. -/
def within? (s : Session) (name : String) : Option (Nat × Deadline) :=
  (s.handles.lookup name).bind Handle.within?

/-- A wait within a time is polled: the first time, when the limit is named and the deadline is laid
down, or once more. -/
inductive PollsWithin (s : Session) (name : String) (limit : Option Nat) (id began ms : Nat) :
    Prop where
  | first (hlookup : s.handles.lookup name = some (.waiter id)) (hlimit : limit = some ms)
      (hbegan : s.now = began)
  | again (hwithin : s.within? name = some (id, ⟨began + ms, ms⟩))

/-- At one of these moves somebody asked to wait on a waiter within a time, and the clock said when
that was. -/
def Asked (start : Session) (moves : List Move) (name : String) (id began ms : Nat) : Prop :=
  ∃ before since, moves = before ++ .act (.receive name (some ms)) :: since ∧
    (start.run before).handles.lookup name = some (.waiter id) ∧ (start.run before).now = began

/-- What a poll of a wait within a time comes to, behind moves of a session. -/
structure InTime (start : Session) (moves : List Move) (name : String) (limit : Option Nat)
    (id began ms : Nat) (answer : Option Reply) : Prop where
  /-- The time counts from the first poll. -/
  asked : Asked start (moves ++ [.act (.receive name limit)]) name id began ms
  answers : ((start.run moves).act (.receive name limit)).1 = Answer.ofReply? answer
  /-- A wait that is not over goes on to the same deadline. -/
  goesOn : answer = none → ∀ limit',
    ((start.run moves).move (.act (.receive name limit))).PollsWithin name limit' id began ms
  keepsTime : (start.run moves).connection.KeepsTime [id] ((start.run moves).connection.outcome? id)
    (began + ms ≤ (start.run moves).now)
    (Deadline.failure ((start.run moves).connection.exchange.eventOf id) ms) answer
    ((start.run moves).move (.act (.receive name limit))).connection.exchange
  /-- Whoever is told that the time is up has never been given anything. -/
  untouched : (∃ text, answer = some (.error (.timeout text))) →
    ∀ earlier, earlier <+: moves → (start.run earlier).connection.outcome? id = none
  /-- And from then on every message goes past the waiter. -/
  passedOver : (∃ text, answer = some (.error (.timeout text))) → ∀ later,
    let t := ((start.run moves).move (.act (.receive name limit))).run later
    t.connection.isGone = false → t.connection.exchange.PassesOver [id]

variable {s : Session} {name other : String} {handle : Handle} {w : Nat × Deadline}
  {limit : Option Nat} {id began ms : Nat}

/-! ### Where deadlines come from -/

theorem lookup_of_filter {handles : List (String × Handle)}
    (h : (handles.filter (·.1 ≠ name)).lookup other = some handle) :
    handles.lookup other = some handle := by
  induction handles with
  | nil => cases h
  | cons p handles ih =>
    obtain ⟨key, first⟩ := p
    by_cases hkey : key = name
    · rw [List.filter_cons_of_neg (by simpa using hkey)] at h
      have hother : other ≠ key := by
        rintro rfl
        have hmem := mem_of_lookup h
        simp [hkey] at hmem
      rw [List.lookup_cons, beq_false_of_ne hother]
      exact ih h
    · rw [List.filter_cons_of_pos (by simpa using hkey), List.lookup_cons] at h
      rw [List.lookup_cons]
      split at h
      · exact h
      · exact ih h

theorem within?_take (h : (s.take name).2.within? other = some w) : s.within? other = some w := by
  obtain ⟨handle, hlookup, hhandle⟩ := Option.bind_eq_some_iff.mp h
  exact Option.bind_eq_some_iff.mpr ⟨handle, lookup_of_filter hlookup, hhandle⟩

theorem within?_put (h : (s.put name handle).within? other = some w) :
    s.within? other = some w ∨ other = name ∧ handle.within? = some w := by
  obtain ⟨found, hlookup, hfound⟩ := Option.bind_eq_some_iff.mp h
  rw [handles_put, List.lookup_append, Option.or_eq_some_iff] at hlookup
  rcases hlookup with hold | ⟨-, hnew⟩
  · exact .inl (Option.bind_eq_some_iff.mpr ⟨found, lookup_of_filter hold, hfound⟩)
  · have hmem := mem_of_lookup hnew
    obtain ⟨rfl, rfl⟩ : other = name ∧ found = handle := by simpa using hmem
    exact .inr ⟨rfl, hfound⟩

theorem within?_answerPoll {r : Poll × Connection}
    (h : (s.answerPoll name r).2.within? other = some w) :
    s.within? other = some w ∨
      other = name ∧ ∃ call, r.1 = .pending call ∧ call.within? = some w := by
  obtain ⟨poll, c⟩ := r
  cases poll with
  | finished outcome => exact .inl h
  | pending call =>
    rcases within?_put h with hold | ⟨rfl, hnew⟩
    · exact .inl hold
    · exact .inr ⟨rfl, call, rfl, hnew⟩

/-- A call that begins brings no deadline. -/
theorem within?_of_timeless {r : Poll × Connection} (hr : r.1.Timeless)
    (h : (s.answerPoll name r).2.within? other = some w) : s.within? other = some w := by
  rcases within?_answerPoll h with hold | ⟨-, call, hcall, hnew⟩
  · exact hold
  · rw [hr call hcall] at hnew
    cases hnew

theorem within?_withConnection {action : Connection → Answer × Session}
    (haction : (action s.connection).2.within? other = some w → s.within? other = some w)
    (h : (s.withConnection action).2.within? other = some w) : s.within? other = some w := by
  rw [withConnection] at h
  split at h
  · exact haction h
  · exact h

/-- A deadline is laid down by the first poll that names a limit, or was there before. -/
theorem within?_act {action : Action} (h : (s.act action).2.within? name = some w) :
    s.within? name = some w ∨ ∃ ms, action = .receive name (some ms) ∧
      s.handles.lookup name = some (.waiter w.1) ∧ w.2 = ⟨s.now + ms, ms⟩ := by
  cases action with
  | register key event =>
    refine .inl (within?_withConnection ?_ h)
    cases s.connection.register event with
    | error failure => exact id
    | ok r =>
      intro hput
      rcases within?_put hput with hold | ⟨-, hnew⟩
      · exact hold
      · cases hnew
  | receive key limit =>
    cases hlookup : s.handles.lookup key with
    | none =>
      simp only [act, take, hlookup] at h
      exact .inl (within?_take h)
    | some handle =>
      cases handle with
      | waiter id =>
        simp only [act, take, hlookup] at h
        rcases within?_answerPoll h with hold | ⟨rfl, call, hcall, hnew⟩
        · exact .inl (within?_take hold)
        · rw [eq_of_pollReceive hcall] at hnew
          cases limit with
          | none => cases hnew
          | some ms =>
            cases hnew
            exact .inr ⟨ms, rfl, hlookup, rfl⟩
      | call call =>
        simp only [act, take, hlookup] at h
        rcases within?_answerPoll h with hold | ⟨rfl, call', hcall', hnew⟩
        · exact .inl (within?_take hold)
        · rw [(goesOn_poll hcall').within?] at hnew
          exact .inl (Option.bind_eq_some_iff.mpr ⟨.call call, hlookup, hnew⟩)
  | drop key =>
    cases hlookup : s.handles.lookup key with
    | none =>
      simp only [act, take, hlookup] at h
      exact .inl (within?_take h)
    | some handle =>
      simp only [act, take, hlookup] at h
      exact .inl (within?_take h)
  | awaitOnce key event =>
    exact .inl (within?_withConnection (within?_of_timeless (timeless_awaitOnce _ _ event)) h)
  | request key event payload =>
    exact .inl (within?_withConnection (within?_of_timeless (timeless_request _ _ event payload)) h)
  | send key event payload =>
    exact .inl (within?_withConnection (within?_of_timeless (timeless_send _ _ event payload)) h)
  | close key => exact .inl (within?_withConnection (within?_of_timeless (timeless_close _ _)) h)
  | status | describe | subscribe key => exact .inl (within?_withConnection id h)
  | notices key =>
    simp only [act] at h
    split at h <;> exact .inl h
  | peerWrite bytes =>
    simp only [act] at h
    split_ifs at h <;> exact .inl h
  | peerRead =>
    simp only [act] at h
    split at h <;> exact .inl h
  | dropConnection | peerEnd | peerAbandon | peerClose | trap _ _ | advance _ => exact .inl h

theorem within?_letGo (s : Session) (name : String) : s.letGo.within? name = s.within? name := by
  rcases letGo_cases s with ⟨heq, -⟩ | ⟨heq, -⟩ <;> rw [heq]
  rfl

theorem within?_move {m : Move} (h : (s.move m).within? name = some w) :
    s.within? name = some w ∨ ∃ ms, m = .act (.receive name (some ms)) ∧
      s.handles.lookup name = some (.waiter w.1) ∧ w.2 = ⟨s.now + ms, ms⟩ := by
  cases m with
  | act action =>
    rw [move, within?_letGo] at h
    refine (within?_act h).imp_right ?_
    rintro ⟨ms, rfl, hasked⟩
    exact ⟨ms, rfl, hasked⟩
  | ask key event payload limit =>
    rw [move, within?_letGo] at h
    exact .inl
      (within?_withConnection (within?_of_timeless (timeless_ask _ _ event payload limit)) h)
  | reader | abort => exact .inl h

theorem run_concat (s : Session) (moves : List Move) (m : Move) :
    s.run (moves ++ [m]) = (s.run moves).move m := List.foldl_concat ..

theorem run_append (s : Session) (moves more : List Move) :
    s.run (moves ++ more) = (s.run moves).run more := List.foldl_append

theorem Asked.append {start : Session} {moves : List Move} (h : Asked start moves name id began ms)
    (more : List Move) : Asked start (moves ++ more) name id began ms := by
  obtain ⟨before, since, rfl, hasked⟩ := h
  exact ⟨before, since ++ more, by simp, hasked⟩

/-- Every wait within a time was asked for, and its deadline counts from there. -/
theorem asked_of_within? {start : Session} (hstart : start.handles = []) {moves : List Move}
    {d : Deadline} (h : (start.run moves).within? name = some (id, d)) :
    ∃ began, d = ⟨began + d.limit, d.limit⟩ ∧ Asked start moves name id began d.limit := by
  induction moves using List.reverseRecOn with
  | nil =>
    have hnothing : (start.handles.lookup name).bind Handle.within? = none := by
      rw [hstart]
      rfl
    cases hnothing.symm.trans h
  | append_singleton moves m ih =>
    rw [run_concat] at h
    rcases within?_move h with hold | ⟨ms, rfl, hlookup, rfl⟩
    · obtain ⟨began, hdeadline, hasked⟩ := ih hold
      exact ⟨began, hdeadline, hasked.append [m]⟩
    · exact ⟨(start.run moves).now, rfl, moves, [], rfl, hlookup, rfl⟩

theorem asked_of_polls {start : Session} (hstart : start.handles = []) {moves : List Move}
    (h : (start.run moves).PollsWithin name limit id began ms) :
    Asked start (moves ++ [.act (.receive name limit)]) name id began ms := by
  cases h with
  | first hlookup hlimit hbegan =>
    subst hlimit
    exact ⟨moves, [], rfl, hlookup, hbegan⟩
  | again hwithin =>
    obtain ⟨began', hdeadline, hasked⟩ := asked_of_within? hstart hwithin
    have htime : began + ms = began' + ms := congrArg Deadline.time hdeadline
    obtain rfl : began = began' := by omega
    exact hasked.append _

/-! ### What a poll comes to -/

/-- A poll looks at what the waiter was given, and then at the deadline. -/
theorem PollsWithin.act_eq (h : s.PollsWithin name limit id began ms) :
    ∃ keeps, s.act (.receive name limit) = (s.take name).2.answerPoll name
      (Call.pollReceive s.connection s.now id (some ⟨began + ms, ms⟩) keeps) := by
  cases h with
  | first hlookup hlimit hbegan =>
    subst hlimit hbegan
    refine ⟨false, ?_⟩
    simp only [act, take, hlookup]
    rfl
  | again hwithin =>
    obtain ⟨handle, hlookup, hhandle⟩ := Option.bind_eq_some_iff.mp hwithin
    obtain ⟨keeps, rfl⟩ := Handle.eq_of_within? hhandle
    refine ⟨keeps, ?_⟩
    simp only [act, take, hlookup]
    rfl

/-- Whoever waits within a time holds the waiter. -/
theorem PollsWithin.mem_waitersOf (h : s.PollsWithin name limit id began ms) :
    id ∈ waitersOf s.handles := by
  cases h with
  | first hlookup _ _ => exact Session.mem_waitersOf (mem_of_lookup hlookup) List.mem_cons_self
  | again hwithin =>
    obtain ⟨handle, hlookup, hhandle⟩ := Option.bind_eq_some_iff.mp hwithin
    obtain ⟨keeps, rfl⟩ := Handle.eq_of_within? hhandle
    exact Session.mem_waitersOf (mem_of_lookup hlookup) List.mem_cons_self

/-- A wait that is not over is put back under its name. -/
theorem within?_of_pending {c : Connection} {keeps : Bool} {d : Deadline} :
    ((s.take name).2.answerPoll name (.pending (.receive id (some d) keeps), c)).2.within? name =
      some (id, d) := by
  have hnone : ((s.handles.filter (·.1 ≠ name)).filter (·.1 ≠ name)).lookup name = none := by
    refine List.lookup_eq_none_iff.mpr ?_
    intro p hp
    have hne : p.1 ≠ name := by simpa using (List.mem_filter.mp hp).2
    simpa using hne.symm
  simp only [answerPoll, within?, handles_put, take, List.lookup_append, hnone, Option.none_or]
  simp [Handle.within?, Call.within?]

/-- Each poll of a wait within a time keeps to the deadline. -/
theorem PollsWithin.keepsTime (h : s.PollsWithin name limit id began ms) (hs : s.Sound) :
    let polled := s.act (.receive name limit)
    ∃ answer, polled.1 = Answer.ofReply? answer ∧
      (answer = none → polled.2.within? name = some (id, ⟨began + ms, ms⟩)) ∧
      s.connection.KeepsTime [id] (s.connection.outcome? id) (began + ms ≤ s.now)
        (Deadline.failure (s.connection.exchange.eventOf id) ms) answer
        polled.2.connection.exchange ∧
      ((∃ text, answer = some (.error (.timeout text))) →
        Departed [id] polled.2.connection.exchange) := by
  have hheld : s.connection.isGone = false → s.connection.exchange.isHeld id = true :=
    fun hgone => (hs.owns hgone).held id h.mem_waitersOf
  obtain ⟨keeps, hact⟩ := h.act_eq
  obtain ⟨answer, hanswer, hkeeps, hdeparted⟩ :=
    keepsTime_pollReceive hs.proper hheld s.now ⟨began + ms, ms⟩ keeps
  rw [hact]
  generalize Call.pollReceive s.connection s.now id (some ⟨began + ms, ms⟩) keeps = result at *
  obtain ⟨poll, c⟩ := result
  cases answer with
  | none =>
    obtain rfl : poll = .pending (.receive id (some ⟨began + ms, ms⟩) keeps) := hanswer
    exact ⟨none, rfl, fun _ => within?_of_pending, hkeeps.of_none _, by simp⟩
  | some r =>
    obtain rfl : poll = .finished (.reply r) := hanswer
    exact ⟨some r, rfl, by simp, hkeeps, hdeparted⟩

/-! ### What comes before and after -/

/-- As long as the connection is not gone, its exchange changes as exchanges do. -/
theorem leadsTo_run (hs : s.Sound) (moves : List Move)
    (hgone : (s.run moves).connection.isGone = false) :
    s.connection.isGone = false ∧
      s.connection.exchange.LeadsTo (s.run moves).connection.exchange := by
  induction moves generalizing s with
  | nil => exact ⟨hgone, .refl _⟩
  | cons m moves ih =>
    obtain ⟨hgone', hleads⟩ := ih (hs.move m) hgone
    have hbefore := not_gone_of_move hs hgone'
    obtain ⟨ids, hevolves⟩ := evolves_move hs hbefore m
    exact ⟨hbefore, (LeadsTo.of_evolves hevolves).trans hleads⟩

/-- Whoever has nothing now never had anything. -/
theorem outcome?_eq_none_of_prefix {start : Session} (hstart : start.Sound)
    {earlier moves : List Move} (hfront : earlier <+: moves)
    (hnone : (start.run moves).connection.outcome? id = none) :
    (start.run earlier).connection.outcome? id = none := by
  obtain ⟨more, rfl⟩ := hfront
  rw [run_append] at hnone
  cases hgiven : (start.run earlier).connection.outcome? id with
  | none => rfl
  | some r =>
    rw [outcome?_run (hstart.run earlier) hgiven more] at hnone
    cases hnone

/-- Every poll of a wait within a time comes to what the waiter has been given, if there is
anything, and otherwise keeps to the deadline that was laid down by the first poll. -/
theorem exists_inTime {start : Session} (hstart : start.Sound) (hhandles : start.handles = [])
    {moves : List Move} (h : (start.run moves).PollsWithin name limit id began ms) :
    ∃ answer, InTime start moves name limit id began ms answer := by
  have hs := hstart.run moves
  obtain ⟨answer, hanswers, hgoesOn, hkeeps, hdeparted⟩ := h.keepsTime hs
  rw [← exchange_letGo ((start.run moves).act _).2] at hkeeps hdeparted
  refine ⟨answer, asked_of_polls hhandles h, hanswers, ?_, hkeeps, ?_, ?_⟩
  · intro hpending limit'
    refine .again ?_
    rw [move, within?_letGo]
    exact hgoesOn hpending
  · intro htimeout earlier hfront
    exact outcome?_eq_none_of_prefix hstart hfront
      ((hkeeps.timesOut.mp htimeout).2 id List.mem_cons_self)
  · intro htimeout later t hgone
    have hs' := hs.move (.act (.receive name limit))
    obtain ⟨hgone', hleads⟩ := leadsTo_run hs' later hgone
    exact (hleads.departed (hs'.exchange hgone') (hdeparted htimeout)).passesOver
      ((hs'.run later).exchange hgone)

theorem eq_finished_of_answerPoll {r : Poll × Connection} {outcome : Outcome}
    (h : (s.answerPoll name r).1 = .finished outcome) : r.1 = .finished outcome := by
  obtain ⟨poll, c⟩ := r
  cases poll with
  | pending call => cases h
  | finished outcome' =>
    cases h
    rfl

/-- A plain wait is told that the time is up only if it is a wait within a time. -/
theorem pollsWithin_of_timeout {start : Session} (hstart : start.Sound)
    (hhandles : start.handles = []) {moves : List Move} {text : String}
    (hlookup : (start.run moves).handles.lookup name = some handle) (hreceives : Receives id handle)
    (htimeout : ((start.run moves).act (.receive name limit)).1 =
      .finished (.reply (.error (.timeout text)))) :
    ∃ began ms, (start.run moves).PollsWithin name limit id began ms := by
  have hproper := (hstart.run moves).proper
  simp only [act, take, hlookup] at htimeout
  cases handle with
  | waiter waiter =>
    obtain rfl : waiter = id := hreceives
    obtain ⟨d, hdeadline, -⟩ := past_of_pollReceive hproper (eq_finished_of_answerPoll htimeout)
    obtain ⟨ms, hlimit, -⟩ := Option.map_eq_some_iff.mp hdeadline
    exact ⟨(start.run moves).now, ms, .first hlookup hlimit rfl⟩
  | call call =>
    cases call with
    | receive waiter deadline keeps =>
      obtain rfl : waiter = id := hreceives
      obtain ⟨d, rfl, -⟩ := past_of_pollReceive hproper (eq_finished_of_answerPoll htimeout)
      have hwithin : (start.run moves).within? name = some (waiter, d) :=
        Option.bind_eq_some_iff.mpr ⟨_, hlookup, rfl⟩
      obtain ⟨began, hdeadline, -⟩ := asked_of_within? hhandles hwithin
      exact ⟨began, d.limit, .again (hdeadline ▸ hwithin)⟩
    | _ => cases hreceives

end Session

end EnvelopeClient
