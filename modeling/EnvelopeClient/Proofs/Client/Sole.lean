import EnvelopeClient.Proofs.Client.Visits

/-!
# One live connection

A client in shared mode has at most one open connection, and it is the one that is stored
(`sole_connection`). Whoever has the slot while it is vacant is the only one who can dial. So all
requests that come to the slot while the connection that was opened is open are sent on it
(`Client.SharesLink`), and a connect that comes to nothing leaves everything as it was
(`Client.Stays`) but for the turn, which passes to the next (`Client.ConnectsAfresh`).
-/

namespace EnvelopeClient.Client

open Exchange Connection

variable {c c' : Client} {conn : Connection} {k id : Nat} {r : InFlight}

/-! ### Moves -/

theorem steady_ofConfig {config : Config} (hmode : config.mode = .shared) :
    (ofConfig config).Steady :=
  { sole_ofConfig config with
    shared := hmode
    orderly := orderly_ofConfig config
    slot := shares_ofConfig config }

theorem poll_of_missing (h : c.requests.lookup id = none) (now : Nat) (dial : Dial) :
    c.poll now dial id = (.pending, c) := by
  rw [poll, h]

namespace Steady

theorem of_settled (h : c.Steady) (hsettled : c.Settled c') (horderly : c'.Orderly) : c'.Steady :=
  { hsettled.toSole with
    shared := by
      rw [hsettled.config]
      exact h.shared
    orderly := horderly
    slot := hsettled.slot }

theorem of_follows (h : c.Steady) (hfollows : c.Follows c') (horderly : c'.Orderly)
    (hslot : Slot c'.requests c'.turns c'.nextTurn c.openOnes) : c'.Steady :=
  h.of_settled { h.toSole.follows hfollows with
    config := hfollows.config, slot := hslot.of_connections hfollows.openOnes } horderly

/-- What there is of a request under way, and of the turns without it. -/
theorem slot_others (h : c.Steady) (hmem : (id, r) ∈ c.requests) {call : Call}
    (hrunning : r.progress = .running k call) :
    Slot (c.requests.filter (·.1 ≠ id)) c.turns c.nextTurn c.openOnes := by
  refine (h.slot.reorder (perm_cons_filter h.orderly.numbers hmem)).remove ?_
  rw [hrunning]
  rfl

/-- A request is not there, or not under way, or under way on a connection that is there. -/
theorem request_cases (h : c.Steady) (id : Nat) :
    c.requests.lookup id = none ∨ (∃ r, (id, r) ∈ c.requests ∧ r.Idle) ∨
      ∃ r k call conn, (id, r) ∈ c.requests ∧ r.progress = .running k call ∧
        c.connections[k]? = some conn := by
  cases hlookup : c.requests.lookup id with
  | none => exact .inl rfl
  | some r =>
    have hmem := mem_of_lookup hlookup
    by_cases hidle : r.Idle
    · exact .inr (.inl ⟨r, hmem, hidle⟩)
    · obtain ⟨k, call, hrunning⟩ : ∃ k call, r.progress = .running k call := by
        simpa [InFlight.Idle] using hidle
      have hlt := (h.orderly.running _ hmem k call hrunning).1
      exact .inr (.inr ⟨r, k, call, _, hmem, hrunning, List.getElem?_eq_getElem hlt⟩)

theorem poll_idle (h : c.Steady) (hmem : (id, r) ∈ c.requests) (hidle : r.Idle) (now : Nat)
    (dial : Dial) :
    let c' := (c.poll now dial id).2
    c.Changes c' ∧ c.Settled c' := by
  obtain ⟨turns, nextTurn, turn, hplace, hpoll, -⟩ := exists_place h hmem hidle
  obtain ⟨hchanges, hsettled⟩ := hplace.changes now dial
  rw [← hpoll] at hchanges hsettled
  exact ⟨hchanges.imp_left (stays_turns c _ _).follows.trans,
    { hsettled.toSole with config := hsettled.config, slot := hsettled.slot }⟩

/-- A request under way has no turn, and polling it goes on with its call. -/
theorem poll_running (h : c.Steady) {call : Call} (hmem : (id, r) ∈ c.requests)
    (hrunning : r.progress = .running k call) (hconn : c.connections[k]? = some conn) (now : Nat)
    (dial : Dial) :
    let c' := (c.poll now dial id).2
    c.Follows c' ∧ Slot c'.requests c'.turns c'.nextTurn c.openOnes := by
  obtain ⟨halive, -⟩ := h.orderly.under_way hmem hrunning hconn
  rw [poll_of_running h.orderly.numbers hmem hrunning hconn]
  refine ⟨follows_absorb hconn (ages_poll halive call now), ?_⟩
  refine slot_absorb h.orderly.numbers hmem ?_ _
  intro call'
  refine (h.slot_others hmem hrunning).add rfl ?_
  intro turn? heq
  cases heq

theorem poll (h : c.Steady) (now : Nat) (dial : Dial) (id : Nat) :
    let c' := (c.poll now dial id).2
    c.Changes c' ∧ c'.Steady := by
  have horderly := h.orderly.poll now dial id
  rcases h.request_cases id with
    hlookup | ⟨r, hmem, hidle⟩ | ⟨r, k, call, conn, hmem, hrunning, hconn⟩
  · rw [poll_of_missing hlookup]
    exact ⟨.inl (Stays.refl c).follows, h⟩
  · obtain ⟨hchanges, hsettled⟩ := h.poll_idle hmem hidle now dial
    exact ⟨hchanges, h.of_settled hsettled horderly⟩
  · obtain ⟨hfollows, hslot⟩ := h.poll_running hmem hrunning hconn now dial
    exact ⟨.inl hfollows, h.of_follows hfollows horderly hslot⟩

theorem begin (h : c.Steady) (event : String) (payload : Payload) :
    let c' := (c.begin event payload).2
    c.Stays c' ∧ c'.Steady := by
  have hstays : c.Stays (c.begin event payload).2 := stays_of_eq rfl rfl rfl
  refine ⟨hstays, h.of_follows hstays.follows (h.orderly.begin event payload) ?_⟩
  have hadd : Slot ((c.nextRequest, ⟨event, payload, .fresh⟩) :: c.requests) c.turns c.nextTurn
      c.openOnes := by
    refine h.slot.add rfl ?_
    intro turn? hprogress
    cases hprogress
  exact hadd.reorder (List.perm_append_singleton _ _).symm

/-- A request is dropped: it gives up its turn, if it has one. -/
theorem drop (h : c.Steady) (id : Nat) : c.Stays (c.drop id) ∧ (c.drop id).Steady := by
  have horderly := h.orderly.drop id
  cases hlookup : c.requests.lookup id with
  | none =>
    have hsame : c.drop id = c := by rw [Client.drop, hlookup]
    rw [hsame]
    exact ⟨.refl c, h⟩
  | some r =>
    have hmem := mem_of_lookup hlookup
    have hslot : Slot ((id, r) :: c.requests.filter (·.1 ≠ id)) c.turns c.nextTurn c.openOnes :=
      h.slot.reorder (perm_cons_filter h.orderly.numbers hmem)
    suffices hgone : ∃ gone, c.drop id = gone.finish id ∧ c.Stays gone ∧
        Slot (gone.requests.filter (·.1 ≠ id)) gone.turns gone.nextTurn c.openOnes by
      obtain ⟨gone, heq, hstays, hslot⟩ := hgone
      rw [heq] at horderly ⊢
      have hfinished := hstays.trans (stays_finish gone id)
      exact ⟨hfinished, h.of_follows hfinished.follows horderly hslot⟩
    rw [Client.drop, hlookup]
    obtain ⟨event, payload, progress⟩ := r
    cases progress with
    | fresh => exact ⟨_, rfl, stays_of_eq rfl rfl rfl, hslot.remove rfl⟩
    | queued turn => exact ⟨_, rfl, stays_leaveTurns c _, hslot.withdraw rfl⟩
    | dialling turn? =>
      obtain ⟨-, turn, rfl, -⟩ := hslot.dialling _ List.mem_cons_self turn? rfl
      exact ⟨_, rfl, stays_leaveTurns c _, hslot.withdraw rfl⟩
    | running k call =>
      exact ⟨_, rfl, stays_onConnection c k (status_drop call), hslot.remove rfl⟩

theorem incident (h : c.Steady) (k : Nat) (what : Connection.Incident) :
    let c' := c.onConnection k (·.befall what)
    c.Follows c' ∧ c'.Steady := by
  have hfollows : c.Follows (c.onConnection k (·.befall what)) :=
    follows_onConnection fun conn _ => ages_befall conn what
  exact ⟨hfollows, h.of_follows hfollows (h.orderly.incident k what) h.slot⟩

theorem move (h : c.Steady) (m : Move) : c.Changes (c.move m) ∧ (c.move m).Steady := by
  cases m with
  | begin event payload =>
    obtain ⟨hstays, hsteady⟩ := h.begin event payload
    exact ⟨.inl hstays.follows, hsteady⟩
  | poll id now dial => exact h.poll now dial id
  | drop id =>
    obtain ⟨hstays, hsteady⟩ := h.drop id
    exact ⟨.inl hstays.follows, hsteady⟩
  | incident k what =>
    obtain ⟨hfollows, hsteady⟩ := h.incident k what
    exact ⟨.inl hfollows, hsteady⟩

theorem run (h : c.Steady) (moves : List Move) : (c.run moves).Steady := by
  induction moves generalizing c with
  | nil => exact h
  | cons m moves ih => exact ih (h.move m).2

/-- There are never fewer connections than there were. -/
theorem length_le (h : c.Steady) (moves : List Move) :
    c.connections.length ≤ (c.run moves).connections.length := by
  induction moves generalizing c with
  | nil => exact Nat.le_refl _
  | cons m moves ih =>
    obtain ⟨hchanges, hsteady⟩ := h.move m
    refine Nat.le_trans ?_ (ih hsteady)
    rcases hchanges with hfollows | ⟨-, hlength⟩
    · exact Nat.le_of_eq hfollows.length.symm
    · omega

/-- As long as no connection is opened, those there are age. -/
theorem follows_run (h : c.Steady) (moves : List Move)
    (hlength : (c.run moves).connections.length = c.connections.length) :
    c.Follows (c.run moves) := by
  induction moves generalizing c with
  | nil => exact (Stays.refl c).follows
  | cons m moves ih =>
    obtain ⟨hchanges, hsteady⟩ := h.move m
    have hle : (c.move m).connections.length ≤ _ := hsteady.length_le moves
    have hlength : ((c.move m).run moves).connections.length = c.connections.length := hlength
    rcases hchanges with hfollows | ⟨-, hopened⟩
    · exact hfollows.trans (ih hsteady (hlength.trans hfollows.length.symm))
    · omega

/-- Who looks at the slot while it is vacant, and nobody else, would dial. -/
theorem wouldDial_iff (h : c.Steady) :
    c.wouldDial id = true ↔ c.Looks id ∧ c.openConnection? = none := by
  rcases h.request_cases id with
    hlookup | ⟨r, hmem, hidle⟩ | ⟨r, k, call, conn, hmem, hrunning, hconn⟩
  · have hfalse : c.wouldDial id = false := by rw [wouldDial, hlookup]
    have hnot : ¬c.Looks id := by
      intro hlooks
      obtain ⟨r, hmem, -⟩ := hlooks.exists_idle
      cases hlookup.symm.trans (lookup_of_mem h.orderly.numbers hmem)
    simp [hfalse, hnot]
  · obtain ⟨turns, nextTurn, turn, -, -, hlooks, hdials⟩ := exists_place h hmem hidle
    rw [hdials, hlooks]
  · have hfalse : c.wouldDial id = false := by
      rw [wouldDial, lookup_of_mem h.orderly.numbers hmem]
      simp only [hrunning]
    have hnot : ¬c.Looks id := by
      rw [looks_iff h.orderly.numbers hmem, looks, hrunning]
      exact Bool.noConfusion
    simp [hfalse, hnot]

/-- The slot is looked at by a request that has the head of the turns, or by any new one if there
are none. -/
theorem exists_looks (h : c.Steady) (hwaiting : ∃ p ∈ c.requests, p.2.Idle) : ∃ id, c.Looks id := by
  obtain ⟨⟨id, r⟩, hmem, hidle, hfirst⟩ := h.slot.exists_first hwaiting
  refine ⟨id, (id, r), hmem, rfl, ?_⟩
  obtain ⟨event, payload, progress⟩ := r
  cases progress with
  | fresh => exact List.isEmpty_iff.mpr (List.head?_eq_none_iff.mp hfirst.symm)
  | queued turn => exact decide_eq_true hfirst.symm
  | dialling turn => rfl
  | running k call => exact absurd rfl (hidle k call)

/-- Nobody looks at the slot while another request dials. -/
theorem eq_of_dialling (h : c.Steady) (hmem : (id, r) ∈ c.requests) {turn? : Option Nat}
    (hdialling : r.progress = .dialling turn?) {other : Nat} (hlooks : c.Looks other) :
    other = id := by
  obtain ⟨-, turn, rfl, hhead⟩ := h.slot.dialling _ hmem turn? hdialling
  obtain ⟨⟨_, event, payload, progress⟩, hmem', rfl, hlooks⟩ := hlooks
  have hturn : progress.ticket? = some turn := by
    cases progress with
    | fresh =>
      rw [List.isEmpty_iff.mp hlooks] at hhead
      cases hhead
    | queued turn' => exact (of_decide_eq_true hlooks).symm.trans hhead
    | dialling turn?' =>
      obtain ⟨-, turn', rfl, hhead'⟩ := h.slot.dialling _ hmem' turn?' rfl
      exact hhead'.symm.trans hhead
    | running k call => cases hlooks
  have hticket : r.progress.ticket? = some turn := by
    rw [hdialling]
    rfl
  exact congrArg Prod.fst (h.slot.eq_of_ticket hmem hmem' hticket hturn)

/-- A request that would not dial is not concerned with what the socket answers. -/
theorem poll_of_not_wouldDial (h : c.Steady) (hnot : c.wouldDial id = false) (now : Nat)
    (dial : Dial) :
    c.poll now dial id = c.poll now .waiting id ∧ c.Follows (c.poll now dial id).2 := by
  rcases h.request_cases id with
    hlookup | ⟨r, hmem, hidle⟩ | ⟨r, k, call, conn, hmem, hrunning, hconn⟩
  · rw [poll_of_missing hlookup, poll_of_missing hlookup]
    exact ⟨rfl, (Stays.refl c).follows⟩
  · obtain ⟨turns, nextTurn, turn, hplace, hpoll, -, hdials⟩ := exists_place h hmem hidle
    have hsame := (stays_turns c turns nextTurn).follows
    rw [hpoll, hpoll]
    by_cases hhead : turns.head? = some turn
    · cases hopen : openConnection? { c with turns, nextTurn } with
      | some k =>
        obtain ⟨-, conn, hconn, -⟩ := openConnection?_eq_some.mp hopen
        refine ⟨?_, hsame.trans (hplace.uses hhead hopen hconn now dial).2.1⟩
        exact (pollSlot_of_open hhead hopen).trans (pollSlot_of_open hhead hopen).symm
      | none => cases hnot.symm.trans (hdials.mpr ⟨hhead, hopen⟩)
    · obtain ⟨heq, hfollows, -⟩ := hplace.waits hhead now dial
      exact ⟨heq.trans (hplace.waits hhead now .waiting).1.symm, hsame.trans hfollows⟩
  · refine ⟨?_, (h.poll_running hmem hrunning hconn now dial).1⟩
    rw [poll_of_running h.orderly.numbers hmem hrunning hconn,
      poll_of_running h.orderly.numbers hmem hrunning hconn]

/-- Who looks at the slot while there is an open connection is sent on it. -/
theorem poll_of_looks (h : c.Steady) (hlooks : c.Looks id) (hopen : c.openConnection? = some k)
    (hconn : c.connections[k]? = some conn) (now : Nat) (dial : Dial) :
    c.Follows (c.poll now dial id).2 ∧ ∃ r, (id, r) ∈ c.requests ∧
      Joins conn k now id r c.config.timeouts.request? (c.poll now dial id) := by
  obtain ⟨r, hmem, hidle⟩ := hlooks.exists_idle
  obtain ⟨turns, nextTurn, turn, hplace, hpoll, hhead, -⟩ := exists_place h hmem hidle
  obtain ⟨hjoins, hfollows, -⟩ := hplace.uses (hhead.mp hlooks) hopen hconn now dial
  rw [hpoll]
  exact ⟨(stays_turns c turns nextTurn).follows.trans hfollows, r, hmem, hjoins⟩

section

variable (h : c.Steady) (hdials : c.wouldDial id = true) (now : Nat)

include h hdials

/-- Who dials comes to the slot, which is vacant. -/
theorem exists_place_of_wouldDial : ∃ r turns nextTurn turn, (id, r) ∈ c.requests ∧
    Place { c with turns, nextTurn } id r turn ∧
    (∀ now dial, c.poll now dial id = { c with turns, nextTurn }.pollSlot now dial id r turn) ∧
    turns.head? = some turn ∧ c.openConnection? = none := by
  obtain ⟨hlooks, hvacant⟩ := h.wouldDial_iff.mp hdials
  obtain ⟨r, hmem, hidle⟩ := hlooks.exists_idle
  obtain ⟨turns, nextTurn, turn, hplace, hpoll, hhead, -⟩ := exists_place h hmem hidle
  exact ⟨r, turns, nextTurn, turn, hmem, hplace, hpoll, hhead.mp hlooks, hvacant⟩

/-- A connect that takes its time leaves the connections as they are. -/
theorem poll_waiting : ∃ c', c.poll now .waiting id = (.pending, c') ∧ c.Stays c' := by
  obtain ⟨r, turns, nextTurn, turn, hmem, hplace, hpoll, hhead, hvacant⟩ :=
    h.exists_place_of_wouldDial hdials
  obtain ⟨heq, -⟩ := hplace.dials hhead hvacant now
  exact ⟨_, (hpoll now .waiting).trans heq,
    (stays_turns c turns nextTurn).trans (stays_setProgress _ id _)⟩

/-- A connect that fails ends the request, and leaves the connections as they are. -/
theorem poll_failed (failure : Failure) :
    ∃ c', c.poll now (.failed failure) id = (.finished (.error failure), c') ∧
      id ∉ c'.requests.map Prod.fst ∧ c.Stays c' := by
  obtain ⟨r, turns, nextTurn, turn, hmem, hplace, hpoll, hhead, hvacant⟩ :=
    h.exists_place_of_wouldDial hdials
  obtain ⟨heq, hstays, -⟩ := hplace.fails hhead hvacant now failure
  rw [heq] at hstays
  exact ⟨_, (hpoll now _).trans heq, not_mem_finish _ id,
    (stays_turns c turns nextTurn).trans hstays⟩

/-- A connect that succeeds stores one more connection, on which the request is sent. -/
theorem poll_accepted (capacity : Option Nat) :
    let k := c.connections.length
    let result := c.poll now (.accepted capacity) id
    result.2.stored = some k ∧ result.2.connections.length = k + 1 ∧
      ∃ r, (id, r) ∈ c.requests ∧ Joins (.opened c.config.socketPath capacity) k now id r
        c.config.timeouts.request? result := by
  obtain ⟨r, turns, nextTurn, turn, hmem, hplace, hpoll, hhead, hvacant⟩ :=
    h.exists_place_of_wouldDial hdials
  obtain ⟨hstored, hlength, hjoins, -⟩ := hplace.accepts hhead hvacant now capacity
  simp only [hpoll]
  exact ⟨hstored, hlength, r, hmem, hjoins⟩

end

end Steady

/-! ### All runs -/

/-- Whoever comes to the slot connects, until another connection is opened, and somebody does as
long as there are requests that are not under way. -/
def ConnectsAfresh (c : Client) : Prop :=
  ∀ later, let c' := c.run later
    c'.connections.length = c.connections.length →
      (∀ id, c'.Looks id → c'.wouldDial id = true) ∧
      ((∃ p ∈ c'.requests, p.2.Idle) → ∃ id, c'.wouldDial id = true)

/-- Whoever comes to the slot while a connection is open is sent on it, and opens no other. -/
def SharesLink (c : Client) (k : Nat) : Prop :=
  ∀ later, let c' := c.run later
    ∀ conn, c'.connections[k]? = some conn → conn.status = .open → ∀ id, c'.Looks id →
      ∀ now dial, let result := c'.poll now dial id
        result.2.connections.length = c'.connections.length ∧
          ∃ r, (id, r) ∈ c'.requests ∧
            Joins conn k now id r c'.config.timeouts.request? result

theorem Steady.connectsAfresh (h : c.Steady) (hvacant : c.openConnection? = none) :
    c.ConnectsAfresh := by
  intro later c' hlength
  have hsteady : c'.Steady := h.run later
  have hvacant' := (h.follows_run later hlength).openConnection? hvacant
  have hdials : ∀ id, c'.Looks id → c'.wouldDial id = true := fun id hlooks =>
    hsteady.wouldDial_iff.mpr ⟨hlooks, hvacant'⟩
  refine ⟨hdials, ?_⟩
  intro hwaiting
  obtain ⟨id, hlooks⟩ := hsteady.exists_looks hwaiting
  exact ⟨id, hdials id hlooks⟩

theorem Steady.sharesLink (h : c.Steady) (k : Nat) : c.SharesLink k := by
  intro later c' conn hconn hopen id hlooks now dial
  have hsteady : c'.Steady := h.run later
  obtain ⟨hfollows, hjoins⟩ :=
    hsteady.poll_of_looks hlooks (hsteady.toSole.openConnection? hconn hopen) hconn now dial
  exact ⟨hfollows.length, hjoins⟩

/-- A client in shared mode has one connection at a time, whatever its requests do and whatever
happens to its connections.

At most one connection is open. A request dials only if it comes to the slot when no connection has
been opened yet or the one that is stored is closed, and nobody else comes to the slot while it
dials; what the socket would answer does not matter to a request that does not dial. The connection
that is opened is stored, and all requests that come to the slot while it is open are sent on it.
A connect that takes its time, fails or is abandoned with its request leaves the slot and the
connections as they are, so that whoever comes next connects afresh. -/
theorem sole_connection (config : Config) (moves : List Move) (hmode : config.mode = .shared) :
    let c := (ofConfig config).run moves
    (∀ (j k : Nat) (conn conn' : Connection), c.connections[j]? = some conn →
      c.connections[k]? = some conn' → conn.status = .open → conn'.status = .open → j = k) ∧
    (∀ id, c.wouldDial id = true ↔ c.Looks id ∧ c.Vacant) ∧
    (∀ id, c.wouldDial id = false → ∀ now dial,
      c.poll now dial id = c.poll now .waiting id ∧
        (c.poll now dial id).2.connections.length = c.connections.length) ∧
    (∀ id r turn?, (id, r) ∈ c.requests → r.progress = .dialling turn? →
      ∀ other, c.Looks other → other = id) ∧
    (∀ id, c.wouldDial id = true → ∀ now,
      (∀ capacity, let k := c.connections.length
        let result := c.poll now (.accepted capacity) id
        result.2.stored = some k ∧ result.2.connections.length = k + 1 ∧
          (∃ r, (id, r) ∈ c.requests ∧ Joins (.opened c.config.socketPath capacity) k now id r
            c.config.timeouts.request? result) ∧
          result.2.SharesLink k) ∧
      (∃ c', c.poll now .waiting id = (.pending, c') ∧ c.Stays c' ∧ c'.ConnectsAfresh) ∧
      ∀ failure, ∃ c', c.poll now (.failed failure) id = (.finished (.error failure), c') ∧
        id ∉ c'.requests.map Prod.fst ∧ c.Stays c' ∧ c'.ConnectsAfresh) ∧
    ∀ id, c.Stays (c.drop id) ∧ (c.Vacant → (c.drop id).ConnectsAfresh) := by
  intro c
  have h : c.Steady := (steady_ofConfig hmode).run moves
  -- what leaves the connections as they are leaves the slot vacant
  have hafresh : ∀ {c'}, c'.Steady → c.Stays c' → c.openConnection? = none → c'.ConnectsAfresh :=
    fun hsteady hstays hvacant => hsteady.connectsAfresh (hstays.follows.openConnection? hvacant)
  refine ⟨?_, ?_, ?_, ?_, ?_, ?_⟩
  · intro j k conn conn' hj hk hopen hopen'
    exact h.toSole.eq_of_open hj hk hopen hopen'
  · intro id
    rw [h.toSole.vacant_iff]
    exact h.wouldDial_iff
  · intro id hnot now dial
    obtain ⟨heq, hfollows⟩ := h.poll_of_not_wouldDial hnot now dial
    exact ⟨heq, hfollows.length⟩
  · intro id r turn? hmem hdialling other hlooks
    exact h.eq_of_dialling hmem hdialling hlooks
  · intro id hdials now
    obtain ⟨-, hvacant⟩ := h.wouldDial_iff.mp hdials
    refine ⟨?_, ?_, ?_⟩
    · intro capacity
      obtain ⟨hstored, hlength, hjoins⟩ := h.poll_accepted hdials now capacity
      exact ⟨hstored, hlength, hjoins, (h.poll now (.accepted capacity) id).2.sharesLink _⟩
    · obtain ⟨c', heq, hstays⟩ := h.poll_waiting hdials now
      have hsteady := (h.poll now .waiting id).2
      rw [heq] at hsteady
      exact ⟨c', heq, hstays, hafresh hsteady hstays hvacant⟩
    · intro failure
      obtain ⟨c', heq, hgone, hstays⟩ := h.poll_failed hdials now failure
      have hsteady := (h.poll now (.failed failure) id).2
      rw [heq] at hsteady
      exact ⟨c', heq, hgone, hstays, hafresh hsteady hstays hvacant⟩
  · intro id
    obtain ⟨hstays, hsteady⟩ := h.drop id
    refine ⟨hstays, ?_⟩
    intro hvacant
    exact hafresh hsteady hstays (h.toSole.vacant_iff.mp hvacant)

/-- One request dials while another waits: the other is sent on the connection that is opened, or
dials itself if none could be. -/
theorem sole_connection_two :
    let config : Config := ⟨"socket", .shared, .none⟩
    let c := (ofConfig config).run
      [.begin "a" (.int 1), .begin "b" (.int 2), .poll 0 0 .waiting, .poll 1 0 .waiting]
    let opened := (c.poll 0 (.accepted none) 0).2
    let failed := (c.poll 0 (.failed (.connect "refused")) 0).2
    config.mode = .shared ∧ c.wouldDial 0 = true ∧ c.wouldDial 1 = false ∧
      opened.stored = some 0 ∧ opened.Looks 1 ∧
      (∃ conn r, opened.connections[0]? = some conn ∧ conn.status = .open ∧
        Joins conn 0 0 1 r none (opened.poll 0 .waiting 1) ∧
        (opened.poll 0 .waiting 1).2.connections.length = 1) ∧
      c.Stays failed ∧ failed.wouldDial 1 = true := by
  intro config c opened failed
  obtain ⟨-, -, -, -, hdialled, -⟩ := sole_connection config
    [.begin "a" (.int 1), .begin "b" (.int 2), .poll 0 0 .waiting, .poll 1 0 .waiting] rfl
  have hdials : c.wouldDial 0 = true := by decide +kernel
  have hwaits : c.wouldDial 1 = false := by decide +kernel
  have hnone : c.connections.length = 0 := by decide +kernel
  have hlooks : opened.Looks 1 := by decide +kernel
  have hlooks' : failed.Looks 1 := by decide +kernel
  have hstatus : opened.connections.map (·.status) = [.open] := by decide +kernel
  have hlimit : opened.config.timeouts.request? = none := by decide +kernel
  have hc : (ofConfig config).run _ = c := rfl
  have hopened : (c.poll 0 (.accepted none) 0).2 = opened := rfl
  have hfailed : (c.poll 0 (.failed (.connect "refused")) 0).2 = failed := rfl
  rw [hc] at hdialled
  -- the clients are not to be evaluated from here on
  clear_value opened failed c
  obtain ⟨haccepts, -, hfails⟩ := hdialled 0 hdials 0
  obtain ⟨hstored, -, -, hshares⟩ := haccepts none
  obtain ⟨failed', heq, -, hstays, hafresh⟩ := hfails (.connect "refused")
  rw [hopened, hnone] at hstored hshares
  rw [heq] at hfailed
  obtain rfl : failed' = failed := hfailed
  refine ⟨rfl, hdials, hwaits, hstored, hlooks, ?_, hstays, (hafresh [] rfl).1 1 hlooks'⟩
  obtain ⟨conn, hconnections, hopen⟩ := List.map_eq_singleton_iff.mp hstatus
  have hconn : opened.connections[0]? = some conn := by rw [hconnections]; rfl
  obtain ⟨hsame, r, -, hjoins⟩ := hshares [] conn hconn hopen 1 hlooks 0 .waiting
  refine ⟨conn, r, hconn, hopen, ?_, ?_⟩
  · rw [← hlimit]
    exact hjoins
  · exact hsame.trans (congrArg List.length hconnections)

end EnvelopeClient.Client
