import EnvelopeClient.Proofs.Client.Vacancy

/-!
# Coming to the slot

In shared mode every request that is not under way has its place in line or takes the last one
(`Client.exists_place`), and all that polling it can come to is told there: it waits for its turn, is
sent on the connection that is open (`Client.Joins`), or dials because the slot is vacant. The turns
are those of the requests that are not under way, and whoever dials has the slot while no connection
is open, which is what `Client.Steady` says.
-/

namespace EnvelopeClient.Client

open Exchange Connection

variable {c c' : Client} {conn : Connection} {k id now turn : Nat} {r : InFlight} {dial : Dial}
  {connections : List Connection}

/-! ### Open connections -/

/-- The connections of a client that are open. -/
def openOnes (c : Client) : List Connection := c.connections.filter (·.status = .open)

theorem openOnes_eq_nil_iff : c.openOnes = [] ↔
    ∀ (k : Nat) (conn : Connection), c.connections[k]? = some conn → conn.status ≠ .open := by
  rw [openOnes, List.filter_eq_nil_iff]
  constructor
  · intro h k conn hconn
    simpa using h conn (List.mem_of_getElem? hconn)
  · intro h conn hmem
    obtain ⟨k, hconn⟩ := List.mem_iff_getElem?.mp hmem
    simpa using h k conn hconn

theorem Sole.openOnes (h : c.Sole) (hvacant : c.openConnection? = none) : c.openOnes = [] := by
  rw [openOnes_eq_nil_iff]
  intro k conn hconn hopen
  cases hvacant.symm.trans (h.openConnection? hconn hopen)

theorem openConnection?_of_openOnes (h : c.openOnes = []) : c.openConnection? = none := by
  cases hopen : c.openConnection? with
  | none => rfl
  | some k =>
    obtain ⟨-, conn, hconn, hopen⟩ := openConnection?_eq_some.mp hopen
    exact absurd hopen (openOnes_eq_nil_iff.mp h k conn hconn)

theorem Follows.openOnes (h : c.Follows c') (hnone : c.openOnes = []) : c'.openOnes = [] := by
  rw [openOnes_eq_nil_iff] at hnone ⊢
  intro k conn' hconn' hopen
  obtain ⟨conn, hconn, hsame | hclosed⟩ := h.ages k conn' hconn'
  · exact hnone k conn hconn (hsame.symm.trans hopen)
  · cases hopen.symm.trans hclosed

/-! ### Who has the slot -/

/-- Whether a request has the slot as soon as it is polled. -/
def looks (turns : List Nat) (r : InFlight) : Bool :=
  match r.progress with
  | .fresh => turns.isEmpty
  | .queued turn => turns.head? = some turn
  | .dialling _ => true
  | .running _ _ => false

/-- A request comes to the slot when it is polled next. -/
def Looks (c : Client) (id : Nat) : Prop := ∃ p ∈ c.requests, p.1 = id ∧ looks c.turns p.2 = true

instance (c : Client) (id : Nat) : Decidable (c.Looks id) :=
  inferInstanceAs (Decidable (∃ p ∈ c.requests, p.1 = id ∧ looks c.turns p.2 = true))

/-- What always holds of a client in shared mode. -/
structure Steady (c : Client) : Prop extends Sole c where
  shared : c.config.mode = .shared
  orderly : c.Orderly
  slot : Slot c.requests c.turns c.nextTurn c.openOnes

/-- A request that is not under way, and the turn at which it comes to the slot. -/
structure Place (c : Client) (id : Nat) (r : InFlight) (turn : Nat) : Prop extends Sole c where
  orderly : c.Orderly
  mem : (id, r) ∈ c.requests
  slot : Slot ((id, { r with progress := .queued turn }) :: c.requests.filter (·.1 ≠ id)) c.turns
    c.nextTurn c.openOnes

theorem looks_iff (hnumbers : (c.requests.map Prod.fst).Nodup) (hmem : (id, r) ∈ c.requests) :
    c.Looks id ↔ looks c.turns r = true := by
  constructor
  · rintro ⟨⟨_, r'⟩, hmem', rfl, hlooks⟩
    have heq := List.inj_on_of_nodup_map hnumbers hmem' hmem rfl
    cases heq
    exact hlooks
  · intro hlooks
    exact ⟨(id, r), hmem, rfl, hlooks⟩

/-- A request that is not under way has its place, or takes the last one, and polling it is to come
to the slot there. -/
theorem exists_place (h : c.Steady) (hmem : (id, r) ∈ c.requests) (hidle : r.Idle) :
    ∃ turns nextTurn turn, Place { c with turns, nextTurn } id r turn ∧
      (∀ now dial, c.poll now dial id = { c with turns, nextTurn }.pollSlot now dial id r turn) ∧
      (c.Looks id ↔ turns.head? = some turn) ∧
      (c.wouldDial id = true ↔ turns.head? = some turn ∧ c.openConnection? = none) := by
  have hnumbers := h.orderly.numbers
  have hslot : Slot ((id, r) :: c.requests.filter (·.1 ≠ id)) c.turns c.nextTurn c.openOnes :=
    h.slot.reorder (perm_cons_filter hnumbers hmem)
  have hlookup := lookup_of_mem hnumbers hmem
  have hplace : ∀ {turns nextTurn turn}, Slot ((id, { r with progress := .queued turn }) ::
      c.requests.filter (·.1 ≠ id)) turns nextTurn c.openOnes →
      Place { c with turns, nextTurn } id r turn := fun hslot =>
    { known := h.known, stored := h.stored, lt := h.lt, empty := h.empty, orderly := h.orderly,
      mem := hmem, slot := hslot }
  rw [looks_iff hnumbers hmem, wouldDial, hlookup]
  obtain ⟨event, payload, progress⟩ := r
  cases progress with
  | fresh =>
    have hhead : (c.turns ++ [c.nextTurn]).head? = some c.nextTurn ↔ c.turns = [] := by
      cases hturns : c.turns with
      | nil => simp
      | cons first rest =>
        have hlt := h.slot.below first (by simp [hturns])
        simp only [List.cons_append, List.head?_cons, Option.some.injEq, reduceCtorEq, iff_false]
        omega
    refine ⟨c.turns ++ [c.nextTurn], c.nextTurn + 1, c.nextTurn, hplace (hslot.enrol rfl), ?_,
      ?_, ?_⟩
    · intro now dial
      rw [poll, hlookup]
      simp only [h.shared]
    · rw [hhead]
      simp [looks]
    · rw [hhead]
      simp [h.shared]
  | queued turn =>
    refine ⟨c.turns, c.nextTurn, turn, hplace hslot, ?_, by simp [looks], by simp⟩
    intro now dial
    rw [poll, hlookup]
  | dialling turn? =>
    obtain ⟨hempty, turn, rfl, hhead⟩ := hslot.dialling _ List.mem_cons_self turn? rfl
    have hqueued : Slot ((id, ⟨event, payload, .queued turn⟩) :: c.requests.filter (·.1 ≠ id))
        c.turns c.nextTurn c.openOnes := by
      refine hslot.keep rfl rfl ?_
      intro turn? heq
      cases heq
    -- it has the slot, which is vacant
    have hnone := openConnection?_of_openOnes hempty
    refine ⟨c.turns, c.nextTurn, turn, hplace hqueued, ?_, by simp [looks, hhead],
      by simp [hhead, hnone]⟩
    intro now dial
    rw [poll, hlookup, pollSlot, if_pos hhead]
    simp only [hnone]
  | running k call => exact absurd rfl (hidle k call)

/-- Whoever looks at the slot is there, and not under way. -/
theorem Looks.exists_idle (h : c.Looks id) : ∃ r, (id, r) ∈ c.requests ∧ r.Idle := by
  obtain ⟨⟨_, r⟩, hmem, rfl, hlooks⟩ := h
  refine ⟨r, hmem, ?_⟩
  intro k call hrunning
  rw [looks, hrunning] at hlooks
  cases hlooks

/-! ### Getting under way -/

theorem startOn_eq_absorb (hconn : c.connections[k]? = some conn) :
    c.startOn now id k r =
      c.absorb id k (conn.ask now r.event r.payload c.config.timeouts.request?) := by
  rw [startOn, hconn]

theorem follows_startOn (horderly : c.Orderly) (hconn : c.connections[k]? = some conn)
    (hstored : c.stored = some k) : c.Follows (c.startOn now id k r).2 := by
  have halive := horderly.alive k conn hconn (.inl hstored)
  have hgone : conn.isGone = false := by simp [isGone, halive]
  rw [startOn_eq_absorb hconn]
  exact follows_absorb hconn
    (ages_ask halive (horderly.accounts k conn hconn hgone).sound now r.event r.payload _)

/-- What the turns are behind a poll on a connection, if they are so for a request under way. -/
theorem slot_absorb (hnumbers : (c.requests.map Prod.fst).Nodup) (hmem : (id, r) ∈ c.requests)
    (hslot : ∀ call, Slot ((id, { r with progress := .running k call }) ::
      c.requests.filter (·.1 ≠ id)) c.turns c.nextTurn connections)
    (result : EnvelopeClient.Poll × Connection) :
    let c' := (c.absorb id k result).2
    Slot c'.requests c'.turns c'.nextTurn connections := by
  obtain ⟨poll, conn'⟩ := result
  cases poll with
  | pending call => exact (hslot call).reorder (setProgress_perm hnumbers hmem _).symm
  | finished outcome => exact (hslot (.close 0)).remove rfl

theorem slot_startOn (hnumbers : (c.requests.map Prod.fst).Nodup) (hmem : (id, r) ∈ c.requests)
    (hconn : c.connections[k]? = some conn)
    (hslot : ∀ call, Slot ((id, { r with progress := .running k call }) ::
      c.requests.filter (·.1 ≠ id)) c.turns c.nextTurn connections) :
    let c' := (c.startOn now id k r).2
    Slot c'.requests c'.turns c'.nextTurn connections := by
  rw [startOn_eq_absorb hconn]
  exact slot_absorb hnumbers hmem hslot _

/-- A request is sent on a connection: what comes of it, and of the connection, is what comes of
asking there. -/
structure Joins (conn : Connection) (k now id : Nat) (r : InFlight) (limit : Option Nat)
    (result : Poll × Client) : Prop where
  connection :
    result.2.connections[k]? = some (conn.ask now r.event r.payload limit).2
  pending : ∀ call, (conn.ask now r.event r.payload limit).1 = .pending call →
    result.1 = .pending ∧ (id, { r with progress := .running k call }) ∈ result.2.requests
  finished : ∀ outcome, (conn.ask now r.event r.payload limit).1 = .finished outcome →
    result.1 = .finished (replyOf outcome) ∧ id ∉ result.2.requests.map Prod.fst

/-- The connection that is stored is not released. -/
theorem getElem?_releaseUnused_of_stored (hstored : c.stored = some k) :
    c.releaseUnused.connections[k]? = c.connections[k]? := by
  have hreferred : c.isReferred k = true := by simp [isReferred, hstored]
  rw [releaseUnused, List.getElem?_mapIdx, hreferred]
  exact Option.map_id_apply

/-- A request that has ended is not there any more. -/
theorem not_mem_finish (c : Client) (id : Nat) : id ∉ (c.finish id).requests.map Prod.fst := by
  intro hmem
  obtain ⟨p, hp, heq⟩ := List.mem_map.mp hmem
  have hne : decide (p.1 ≠ id) = true := (List.mem_filter.mp hp).2
  simp [heq] at hne

theorem joins_startOn (hnumbers : (c.requests.map Prod.fst).Nodup) (hmem : (id, r) ∈ c.requests)
    (hconn : c.connections[k]? = some conn) (hstored : c.stored = some k) :
    Joins conn k now id r c.config.timeouts.request? (c.startOn now id k r) := by
  rw [startOn_eq_absorb hconn]
  generalize hasked : conn.ask now r.event r.payload c.config.timeouts.request? = asked
  obtain ⟨poll, conn'⟩ := asked
  let noted := c.onConnection k fun _ => conn'
  have hnoted : noted.connections[k]? = some conn' := by
    show (c.connections.modify k _)[k]? = some conn'
    rw [List.getElem?_modify, hconn]
    simp
  refine ⟨?_, ?_, ?_⟩
  · rw [hasked]
    cases poll with
    | pending call => exact hnoted
    | finished outcome =>
      exact (getElem?_releaseUnused_of_stored (c := { noted with
        requests := c.requests.filter (·.1 ≠ id) }) hstored).trans hnoted
  · intro call hcall
    rw [hasked] at hcall
    cases hcall
    exact ⟨rfl, (setProgress_perm hnumbers hmem _).mem_iff.mpr List.mem_cons_self⟩
  · intro outcome houtcome
    rw [hasked] at houtcome
    cases houtcome
    exact ⟨rfl, not_mem_finish noted id⟩

theorem Joins.releaseUnused {limit : Option Nat} {result : Poll × Client}
    (h : Joins conn k now id r limit result) (hstored : result.2.stored = some k) :
    Joins conn k now id r limit (result.1, result.2.releaseUnused) where
  connection := (getElem?_releaseUnused_of_stored hstored).trans h.connection
  pending := h.pending
  finished := h.finished

/-! ### Polling a request at the slot -/

/-- What the turns and the connections of a client in shared mode are behind a poll. -/
structure Settled (c c' : Client) : Prop extends Sole c' where
  config : c'.config = c.config
  slot : Slot c'.requests c'.turns c'.nextTurn c'.openOnes

/-- What a move does to the connections: they stay, or one is opened as the slot is vacant. -/
def Changes (c c' : Client) : Prop :=
  c.Follows c' ∨
    c.openConnection? = none ∧ c'.connections.length = c.connections.length + 1

theorem pollSlot_of_open (hhead : c.turns.head? = some turn) (hopen : c.openConnection? = some k) :
    c.pollSlot now dial id r turn = (c.leaveTurns (some turn)).startOn now id k r := by
  rw [pollSlot, if_pos hhead]
  simp only [hopen]

theorem pollSlot_of_vacant (hhead : c.turns.head? = some turn)
    (hvacant : c.openConnection? = none) :
    c.pollSlot now dial id r turn = c.pollDial now dial id r (some turn) := by
  rw [pollSlot, if_pos hhead]
  simp only [hvacant]

namespace Place

theorem settled_of_follows (h : c.Place id r turn) (hfollows : c.Follows c')
    (hslot : Slot c'.requests c'.turns c'.nextTurn c.openOnes) : c.Settled c' :=
  { h.toSole.follows hfollows with
    config := hfollows.config, slot := hslot.of_connections hfollows.openOnes }

/-- Whoever does not have the slot waits for it. -/
theorem waits (h : c.Place id r turn) (hhead : c.turns.head? ≠ some turn) (now : Nat)
    (dial : Dial) :
    let result := c.pollSlot now dial id r turn
    result = (.pending, c.setProgress id (.queued turn)) ∧ c.Follows result.2 ∧
      c.Settled result.2 := by
  have hpoll : c.pollSlot now dial id r turn = (.pending, c.setProgress id (.queued turn)) := by
    rw [pollSlot, if_neg hhead]
  have hfollows := (stays_setProgress c id (.queued turn)).follows
  rw [hpoll]
  exact ⟨rfl, hfollows, h.settled_of_follows hfollows
    (h.slot.reorder (setProgress_perm h.orderly.numbers h.mem _).symm)⟩

/-- Whoever has the slot gets under way on the connection that is found there. -/
theorem uses (h : c.Place id r turn) (hhead : c.turns.head? = some turn)
    (hopen : c.openConnection? = some k) (hconn : c.connections[k]? = some conn) (now : Nat)
    (dial : Dial) :
    let result := c.pollSlot now dial id r turn
    Joins conn k now id r c.config.timeouts.request? result ∧ c.Follows result.2 ∧
      c.Settled result.2 := by
  have hstored := (openConnection?_eq_some.mp hopen).1
  rw [pollSlot_of_open hhead hopen]
  have hfollows : c.Follows ((c.leaveTurns (some turn)).startOn now id k r).2 :=
    (stays_leaveTurns c _).follows.trans
      (follows_startOn (c := c.leaveTurns (some turn)) h.orderly hconn hstored)
  refine ⟨joins_startOn (c := c.leaveTurns (some turn)) h.orderly.numbers h.mem hconn hstored,
    hfollows, h.settled_of_follows hfollows ?_⟩
  exact slot_startOn (c := c.leaveTurns (some turn)) h.orderly.numbers h.mem hconn
    fun call => h.slot.leave rfl hhead _ k call

section

variable (h : c.Place id r turn) (hhead : c.turns.head? = some turn)
  (hvacant : c.openConnection? = none) (now : Nat)

include h hhead hvacant

/-- Whoever finds the slot vacant waits for an answer of the socket. -/
theorem dials :
    let result := c.pollSlot now .waiting id r turn
    result = (.pending, c.setProgress id (.dialling (some turn))) ∧ c.Follows result.2 ∧
      c.Settled result.2 := by
  have hslot : Slot ((id, { r with progress := .dialling (some turn) }) ::
      c.requests.filter (·.1 ≠ id)) c.turns c.nextTurn c.openOnes := by
    refine h.slot.keep rfl rfl ?_
    intro turn? heq
    exact ⟨h.toSole.openOnes hvacant, hhead⟩
  have hfollows := (stays_setProgress c id (.dialling (some turn))).follows
  rw [pollSlot_of_vacant hhead hvacant]
  exact ⟨rfl, hfollows, h.settled_of_follows hfollows
    (hslot.reorder (setProgress_perm h.orderly.numbers h.mem _).symm)⟩

/-- If the socket cannot be dialled the request fails. -/
theorem fails (failure : Failure) :
    let result := c.pollSlot now (.failed failure) id r turn
    result = (.finished (.error failure), (c.leaveTurns (some turn)).finish id) ∧
      c.Stays result.2 ∧ c.Settled result.2 := by
  have hstays := (stays_leaveTurns c (some turn)).trans (stays_finish _ id)
  rw [pollSlot_of_vacant hhead hvacant]
  exact ⟨rfl, hstays, h.settled_of_follows hstays.follows (h.slot.withdraw rfl)⟩

/-- If the socket is dialled the new connection is stored, and the request is sent on it. -/
theorem accepts (capacity : Option Nat) :
    let k := c.connections.length
    let result := c.pollSlot now (.accepted capacity) id r turn
    result.2.stored = some k ∧ result.2.connections.length = k + 1 ∧
      Joins (.opened c.config.socketPath capacity) k now id r c.config.timeouts.request? result ∧
      c.Settled result.2 := by
  let k := c.connections.length
  let conn : Connection := .opened c.config.socketPath capacity
  let opened : Client := { c with connections := c.connections ++ [conn], stored := some k }
  have hsole : opened.Sole := h.toSole.connect hvacant rfl rfl
  have horderly : opened.Orderly := h.orderly.connect _ _ (.inr rfl)
  have hconn : opened.connections[k]? = some conn := List.getElem?_concat_length
  let started := (opened.leaveTurns (some turn)).startOn now id k r
  have hpoll : c.pollSlot now (.accepted capacity) id r turn =
      (started.1, started.2.releaseUnused) := pollSlot_of_vacant hhead hvacant
  have hstarted : opened.Follows started.2 := (stays_leaveTurns opened _).follows.trans
    (follows_startOn (c := opened.leaveTurns (some turn)) horderly hconn rfl)
  have hfollows := hstarted.trans (stays_releaseUnused started.2).follows
  have hjoins : Joins conn k now id r c.config.timeouts.request? started :=
    joins_startOn (c := opened.leaveTurns (some turn)) h.orderly.numbers h.mem hconn rfl
  have hslot : ∀ connections', Slot started.2.requests started.2.turns started.2.nextTurn
      connections' := fun connections' =>
    slot_startOn (c := opened.leaveTurns (some turn)) h.orderly.numbers h.mem hconn
      fun call => h.slot.leave rfl hhead connections' k call
  rw [hpoll]
  refine ⟨hfollows.stored, ?_, hjoins.releaseUnused hstarted.stored,
    { hsole.follows hfollows with config := hfollows.config, slot := hslot _ }⟩
  rw [hfollows.length]
  exact List.length_append

end

theorem changes (h : c.Place id r turn) (now : Nat) (dial : Dial) :
    let c' := (c.pollSlot now dial id r turn).2
    c.Changes c' ∧ c.Settled c' := by
  by_cases hhead : c.turns.head? = some turn
  · cases hopen : c.openConnection? with
    | some k =>
      obtain ⟨-, conn, hconn, -⟩ := openConnection?_eq_some.mp hopen
      obtain ⟨-, hfollows, hsettled⟩ := h.uses hhead hopen hconn now dial
      exact ⟨.inl hfollows, hsettled⟩
    | none =>
      cases dial with
      | waiting =>
        obtain ⟨-, hfollows, hsettled⟩ := h.dials hhead hopen now
        exact ⟨.inl hfollows, hsettled⟩
      | failed failure =>
        obtain ⟨-, hstays, hsettled⟩ := h.fails hhead hopen now failure
        exact ⟨.inl hstays.follows, hsettled⟩
      | accepted capacity =>
        obtain ⟨-, hlength, -, hsettled⟩ := h.accepts hhead hopen now capacity
        exact ⟨.inr ⟨hopen, hlength⟩, hsettled⟩
  · obtain ⟨-, hfollows, hsettled⟩ := h.waits hhead now dial
    exact ⟨.inl hfollows, hsettled⟩

end Place

end EnvelopeClient.Client
