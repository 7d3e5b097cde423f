import EnvelopeClient.Proofs.Mirror.Invariant

/-!
# Requests to a peer that mirrors

Whatever happens in whatever order, a request that ends has got its own payload, no message comes
back that nobody waits for, and once nothing is on its way any more every request that is polled ends
(`requests_mirrored`).
-/

namespace EnvelopeClient

open Json EnvelopeClient.Frame

namespace Mirror

variable {capacity : Option Nat} {s : Mirror} {f : Flight}

/-! ### Runs -/

/-- Every step keeps the invariant. -/
theorem Inv.step (h : Inv capacity s f) {event : Event} (htravels : event.Travels) :
    ∃ f', Inv capacity (s.step event) f' := by
  cases event with
  | request now event payload => exact h.request htravels
  | poll now i => exact (h.poll now i).1
  | peerReads count => exact h.peerReads count
  | peerWrites count => exact ⟨f, h.peerWrites count⟩
  | reader => exact h.reader

theorem Inv.run (h : Inv capacity s f) {events : List Event}
    (htravels : ∀ event ∈ events, event.Travels) : ∃ f', Inv capacity (s.run events) f' := by
  induction events generalizing s f with
  | nil => exact ⟨f, h⟩
  | cons event events ih =>
    obtain ⟨f', h'⟩ := h.step (htravels event List.mem_cons_self)
    refine ih h' ?_
    intro other hother
    exact htravels other (List.mem_cons_of_mem _ hother)

/-! ### Once nothing is on its way -/

/-- All that was written has been mirrored, and all that was mirrored has been processed. -/
structure Idle (s : Mirror) : Prop where
  unread : s.connection.outbound.unread = []
  held : s.held = []
  outgoing : s.outgoing = []
  inbound : s.connection.inbound.unread = []
  taken : s.connection.taken = []

/-- Whether a request has ended. -/
def Finished (s : Mirror) (i : Nat) : Prop :=
  ∃ r outcome, s.requests[i]? = some r ∧ r.poll = .finished outcome

/-- Polls, each at a time of its own. -/
def polls (list : List (Nat × Nat)) : List Event := list.map fun p => .poll p.1 p.2

theorem length_step_poll (s : Mirror) (now i : Nat) :
    (s.step (.poll now i)).requests.length = s.requests.length := by
  rw [step]
  split
  · simp
  · rfl

theorem length_run_polls (s : Mirror) (list : List (Nat × Nat)) :
    (s.run (polls list)).requests.length = s.requests.length := by
  induction list generalizing s with
  | nil => rfl
  | cons p list ih => exact (ih _).trans (length_step_poll s p.1 p.2)

theorem Finished.poll {j : Nat} (h : s.Finished j) (now i : Nat) :
    (s.step (.poll now i)).Finished j := by
  obtain ⟨r, outcome, hr, hpoll⟩ := h
  cases hi : s.requests[i]? with
  | none => exact ⟨r, outcome, by rw [step_poll_of_none hi, hr], hpoll⟩
  | some r' =>
    cases hpoll' : r'.poll with
    | finished outcome' => exact ⟨r, outcome, by rw [step_poll_of_finished hi hpoll', hr], hpoll⟩
    | pending call =>
      have hne : i ≠ j := by
        rintro rfl
        rw [hr] at hi
        cases hi
        rw [hpoll] at hpoll'
        cases hpoll'
      refine ⟨r, outcome, ?_, hpoll⟩
      rw [step_poll hi hpoll', List.getElem?_set_ne hne, hr]

/-- Polling a request whose message has been given to its waiter ends it. -/
theorem Inv.finished_of_delivered (h : Inv capacity s f) {i : Nat} (hi : i < f.delivered)
    (now : Nat) : (s.step (.poll now i)).Finished i := by
  have hle := f.delivered_le_written
  have hlt : i < s.requests.length := by
    rw [h.length, f.length_all]
    omega
  have hr := List.getElem?_eq_getElem hlt
  obtain ⟨e, he, -, -, hstands⟩ := h.message hr
  cases hpoll : s.requests[i].poll with
  | finished outcome =>
    rw [step_poll_of_finished hr hpoll]
    exact ⟨_, outcome, hr, hpoll⟩
  | pending call =>
    rw [hpoll] at hstands
    cases hstands with
    | waiting hw => omega
    | writing hw => omega
    | hearing hw =>
      rw [h.poll_hearing hr he hpoll hi]
      exact ⟨_, _, List.getElem?_set_self hlt, rfl⟩

/-- If nothing is on its way and nobody writes, everything has been given to its waiter. -/
theorem Inv.delivered_of_idle (h : Inv capacity s f) (hidle : s.Idle)
    (hturns : s.connection.turns = []) : f.delivered = f.all.length := by
  -- no bytes, no messages
  have hback : f.back = [] := by
    have hbytes := h.inbound
    rw [hidle.taken, hidle.inbound, hidle.outgoing] at hbytes
    exact eq_nil_of_texts hbytes.symm
  have hsent : f.sent = [] := by
    have hbytes := h.outbound
    rw [hidle.held, hidle.unread] at hbytes
    exact eq_nil_of_texts (List.append_eq_nil_iff.mp hbytes.symm).1
  have hunsent : f.unsent.length = 0 := by
    have hlist := h.turns
    rw [hturns] at hlist
    simpa using congrArg List.length hlist.symm
  rw [f.length_all, hunsent, Flight.delivered, Flight.written, hback, hsent]
  simp

theorem Polled.idle {i : Nat} {s' : Mirror} (h : Polled i s s') (hidle : s.Idle)
    (hturn : s.connection.turns.head? ≠ some i) :
    s'.Idle ∧ s'.connection.turns = s.connection.turns := by
  obtain ⟨more, hmore, hnone, hturns, -⟩ := h.unread
  refine ⟨⟨?_, h.held.trans hidle.held, h.outgoing.trans hidle.outgoing,
    (congrArg Inbound.unread h.inbound).trans hidle.inbound, h.taken.trans hidle.taken⟩,
    hturns (hnone hturn)⟩
  rw [hmore, hnone hturn, hidle.unread]
  rfl

/-- Then every request that is polled ends. -/
theorem Inv.finished_of_idle (h : Inv capacity s f) (hidle : s.Idle)
    (hturns : s.connection.turns = []) {list : List (Nat × Nat)} {j : Nat}
    (hj : j < s.requests.length) (hpolled : j ∈ list.map (·.2) ∨ s.Finished j) :
    (s.run (polls list)).Finished j := by
  induction list generalizing s f with
  | nil =>
    rcases hpolled with hmem | hfinished
    · cases hmem
    · exact hfinished
  | cons p list ih =>
    obtain ⟨now, i⟩ := p
    -- a poll writes nothing when it is nobody's turn, so nothing is on its way behind it either
    obtain ⟨⟨f', h'⟩, hpolled'⟩ := h.poll now i
    obtain ⟨hidle', hturns'⟩ := hpolled'.idle hidle (by rw [hturns]; simp)
    refine ih h' hidle' (hturns'.trans hturns) (by rwa [length_step_poll]) ?_
    rcases hpolled with hmem | hfinished
    · rcases List.mem_cons.mp hmem with rfl | hmem
      · refine .inr (h.finished_of_delivered ?_ now)
        rwa [h.delivered_of_idle hidle hturns, ← h.length]
      · exact .inl hmem
    · exact .inr (hfinished.poll now i)

/-- What is written stays until the peer reads it. -/
theorem Inv.unread_polls (h : Inv capacity s f) (hunread : s.connection.outbound.unread ≠ [])
    (list : List (Nat × Nat)) : (s.run (polls list)).connection.outbound.unread ≠ [] := by
  induction list generalizing s f with
  | nil => exact hunread
  | cons p list ih =>
    obtain ⟨⟨f', h'⟩, hpolled⟩ := h.poll p.1 p.2
    obtain ⟨more, hmore, -⟩ := hpolled.unread
    exact ih h' (by rw [hmore]; simp [hunread])

/-- Polling everybody makes the one whose turn it is write, unless the pipe can hold nothing. -/
theorem Inv.unread_of_turn (h : Inv capacity s f) (hcapacity : capacity ≠ some 0)
    (hempty : s.connection.outbound.unread = []) {i : Nat}
    (hturn : s.connection.turns.head? = some i) {list : List (Nat × Nat)}
    (hi : i ∈ list.map (·.2)) : (s.run (polls list)).connection.outbound.unread ≠ [] := by
  induction list generalizing s f with
  | nil => cases hi
  | cons p list ih =>
    obtain ⟨now, j⟩ := p
    obtain ⟨⟨f', h'⟩, hpolled⟩ := h.poll now j
    obtain ⟨more, hmore, hnone, hturns, hsome⟩ := hpolled.unread
    rw [hempty, List.nil_append] at hmore
    by_cases hij : i = j
    · -- it writes, and what it writes stays
      subst hij
      exact h'.unread_polls (hmore ▸ hsome hturn (h.capacity ▸ hcapacity) hempty) list
    · -- another's poll leaves it its turn
      have hother : s.connection.turns.head? ≠ some j := by
        rw [hturn]
        simpa using hij
      have hmem : i ∈ list.map (·.2) := (List.mem_cons.mp hi).resolve_left hij
      exact ih h' (hmore.trans (hnone hother)) (by rw [hturns (hnone hother), hturn]) hmem

/-- So if nothing is on its way before and after everybody was polled, nobody is still writing. -/
theorem Inv.turns_of_idle (h : Inv capacity s f) (hcapacity : capacity ≠ some 0) (hidle : s.Idle)
    {list : List (Nat × Nat)} (hall : ∀ i < s.requests.length, i ∈ list.map (·.2))
    (hend : (s.run (polls list)).Idle) : s.connection.turns = [] := by
  cases hunsent : f.unsent with
  | nil =>
    rw [h.turns, hunsent]
    rfl
  | cons e rest =>
    have hlt : f.written < s.requests.length := by
      rw [h.length, f.length_all, hunsent, List.length_cons]
      omega
    exact absurd hend.unread
      (h.unread_of_turn hcapacity hidle.unread (h.head_turns hunsent) (hall _ hlt))

/-- Every request to a peer that mirrors gets its own payload back.

Whatever tags and payloads there are, however much the pipe holds, and however polls, reads and
writes of the peer and steps of the reader are mixed: a request that ends has got its own payload;
whatever the reader takes off the stream is a message somebody waits for; and if nothing is on its
way any more, everybody who is polled ends. That everything has been written by then is so for any
pipe that can hold something, when the polls have left nothing on its way either. -/
theorem requests_mirrored (peer : String) (capacity : Option Nat) {events : List Event}
    (htravels : ∀ event ∈ events, event.Travels) :
    let s := (start peer capacity).run events
    (∀ r ∈ s.requests, ∀ outcome, r.poll = .finished outcome →
      ∃ v, r.payload.toValue = .ok v ∧ outcome = .reply (.ok v)) ∧
    (∃ intake readable, s.connection.reader = .running intake readable false ∧
      ∀ frame rest, intake.decode defaultLimit = (some frame, rest) →
        ∃ e, frame = .envelope e ∧ (s.connection.exchange.deliver e).1 = true) ∧
    (s.Idle → ∀ list : List (Nat × Nat), (∀ i < s.requests.length, i ∈ list.map (·.2)) →
      (s.connection.turns = [] ∨ capacity ≠ some 0 ∧ (s.run (polls list)).Idle) →
      ∀ r ∈ (s.run (polls list)).requests, ∃ outcome, r.poll = .finished outcome) := by
  intro s
  obtain ⟨f, h⟩ : ∃ f, Inv capacity s f := (inv_start peer capacity).run htravels
  refine ⟨?_, ?_, ?_⟩
  · intro r hr outcome hpoll
    obtain ⟨i, hlt, rfl⟩ := List.mem_iff_getElem.mp hr
    obtain ⟨e, -, -, hpayload, hstands⟩ := h.message (List.getElem?_eq_getElem hlt)
    rw [hpoll] at hstands
    cases hstands
    exact ⟨e.data, hpayload, rfl⟩
  · obtain ⟨intake, readable, hreader⟩ := h.reading
    refine ⟨intake, readable, hreader, ?_⟩
    intro frame rest hdecode
    have htaken : s.connection.taken = intake.bytes := by rw [Connection.taken, hreader]
    have hfirst : (decode defaultLimit intake.bytes).1 = some frame := congrArg Prod.fst hdecode
    have hframe : decode defaultLimit s.connection.taken =
        (some frame, (decode defaultLimit intake.bytes).2) := by
      rw [htaken, ← hfirst]
    obtain ⟨e, -, heq, -, hhanded, -⟩ := h.frame hframe
    exact ⟨e, heq, hhanded⟩
  · intro hidle list hall hcase r hr
    have hturns : s.connection.turns = [] := by
      rcases hcase with hturns | ⟨hcapacity, hend⟩
      · exact hturns
      · exact h.turns_of_idle hcapacity hidle hall hend
    obtain ⟨i, hlt, rfl⟩ := List.mem_iff_getElem.mp hr
    have hlength := length_run_polls s list
    obtain ⟨r, outcome, hr, hpoll⟩ :=
      h.finished_of_idle hidle hturns (hlength ▸ hlt) (.inl (hall i (hlength ▸ hlt)))
    rw [List.getElem?_eq_getElem hlt] at hr
    cases hr
    exact ⟨outcome, hpoll⟩

/-- Two requests of one tag over a pipe that holds less than both of their messages. -/
theorem requests_mirrored_same_tag :
    let events : List Event := [.request 0 "tag" (.int 1), .request 0 "tag" (.bool true),
      .peerReads 40, .poll 0 1, .peerReads 40, .peerWrites 9, .reader, .reader, .peerWrites 50,
      .reader, .reader, .reader, .reader]
    let s := (start "peer" (some 30)).run events
    (∀ event ∈ events, event.Travels) ∧
      ∀ r ∈ (s.run (polls [(0, 0), (0, 1)])).requests, ∃ outcome, r.poll = .finished outcome := by
  intro events s
  have htravels : ∀ event ∈ events, event.Travels := by
    simp only [events, List.forall_mem_cons]
    refine ⟨⟨.int 1, rfl, ⟨rfl, rfl, by decide⟩, by decide⟩,
      ⟨.bool true, rfl, ⟨trivial, rfl, by decide⟩, by decide⟩, ?_⟩
    simp [Event.Travels]
  obtain ⟨-, -, hend⟩ := requests_mirrored "peer" (some 30) htravels
  refine ⟨htravels, hend ⟨?_, ?_, ?_, ?_, ?_⟩ [(0, 0), (0, 1)] ?_ (.inl ?_)⟩ <;> decide +kernel

end Mirror

end EnvelopeClient
