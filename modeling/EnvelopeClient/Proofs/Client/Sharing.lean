import EnvelopeClient.Proofs.Client.Ledger

/-!
# Requests that share one connection

In shared mode requests take turns at the slot that stores the connection. `Client.Slot` is what the
turns always are: those of the requests that wait for the slot or dial, where whoever dials has the
slot, which is empty meanwhile. So while the connection that is stored stays open there is no other:
a poll of a request that is not under way leaves it waiting, or sends it on that connection
(`waits_or_sends`), and as long as there are such requests one of them can be sent (`exists_sends`).
-/

namespace EnvelopeClient

/-- What stands under a key that stands once is found there. -/
theorem lookup_of_mem {α β : Type} [DecidableEq α] {list : List (α × β)} {key : α} {value : β}
    (hkeys : (list.map Prod.fst).Nodup) (hmem : (key, value) ∈ list) :
    list.lookup key = some value := by
  cases hlookup : list.lookup key with
  | none =>
    have hne := List.lookup_eq_none_iff.mp hlookup _ hmem
    simp at hne
  | some other =>
    have heq : (key, other) = (key, value) :=
      List.inj_on_of_nodup_map hkeys (mem_of_lookup hlookup) hmem rfl
    cases heq
    rfl

/-- The turn at the slot of a request that waits for it or has it. -/
def Progress.ticket? : Progress → Option Nat
  | .queued turn => some turn
  | .dialling turn => turn
  | .fresh | .running _ _ => none

namespace Client

/-- The turns of some requests. -/
def ticketsOf (requests : List (Nat × InFlight)) : List Nat :=
  requests.filterMap (·.2.progress.ticket?)

/-- The turns are those of the requests, and whoever dials has the slot, which is empty. -/
structure Slot (requests : List (Nat × InFlight)) (turns : List Nat) (next : Nat)
    (connections : List Connection) : Prop where
  perm : turns.Perm (ticketsOf requests)
  nodup : turns.Nodup
  below : ∀ turn ∈ turns, turn < next
  dialling : ∀ p ∈ requests, ∀ turn?, p.2.progress = .dialling turn? →
    connections = [] ∧ ∃ turn, turn? = some turn ∧ turns.head? = some turn

/-- What the turns of a client are. -/
def Shares (c : Client) : Prop := Slot c.requests c.turns c.nextTurn c.connections

variable {requests requests' others : List (Nat × InFlight)} {turns : List Nat}
  {next id turn now : Nat} {connections connections' : List Connection} {r : InFlight}
  {progress : Progress}

theorem ticketsOf_cons_of_none (hnone : r.progress.ticket? = none) :
    ticketsOf ((id, r) :: others) = ticketsOf others := by
  rw [ticketsOf, List.filterMap_cons, hnone]
  rfl

theorem ticketsOf_cons_of_some (hturn : r.progress.ticket? = some turn) :
    ticketsOf ((id, r) :: others) = turn :: ticketsOf others := by
  rw [ticketsOf, List.filterMap_cons, hturn]
  rfl

namespace Slot

theorem reorder (h : Slot requests turns next connections) (hperm : requests.Perm requests') :
    Slot requests' turns next connections where
  perm := h.perm.trans (hperm.filterMap _)
  nodup := h.nodup
  below := h.below
  dialling p hp := h.dialling p (hperm.mem_iff.mpr hp)

/-- Nobody dials while there are connections, so there may be others, or none. -/
theorem of_connections (h : Slot requests turns next connections)
    (hnone : connections = [] → connections' = []) : Slot requests turns next connections' where
  perm := h.perm
  nodup := h.nodup
  below := h.below
  dialling p hp turn? hprogress := by
    obtain ⟨hempty, hhead⟩ := h.dialling p hp turn? hprogress
    exact ⟨hnone hempty, hhead⟩

/-- A request comes that has no turn. -/
theorem add (h : Slot others turns next connections) (hnone : r.progress.ticket? = none)
    (hdialling : ∀ turn?, r.progress ≠ .dialling turn?) :
    Slot ((id, r) :: others) turns next connections where
  perm := by
    rw [ticketsOf_cons_of_none hnone]
    exact h.perm
  nodup := h.nodup
  below := h.below
  dialling p hp turn? hprogress := by
    rcases List.mem_cons.mp hp with rfl | hp
    · exact absurd hprogress (hdialling turn?)
    · exact h.dialling p hp turn? hprogress

/-- A request goes that has no turn. -/
theorem remove (h : Slot ((id, r) :: others) turns next connections)
    (hnone : r.progress.ticket? = none) : Slot others turns next connections where
  perm := by
    have hperm := h.perm
    rwa [ticketsOf_cons_of_none hnone] at hperm
  nodup := h.nodup
  below := h.below
  dialling p hp := h.dialling p (List.mem_cons_of_mem _ hp)

/-- A request without a turn takes the next one. -/
theorem enrol (h : Slot ((id, r) :: others) turns next connections)
    (hnone : r.progress.ticket? = none) :
    Slot ((id, { r with progress := .queued next }) :: others) (turns ++ [next]) (next + 1)
      connections where
  perm := by
    rw [ticketsOf_cons_of_some rfl]
    exact (List.perm_append_singleton _ _).trans ((h.remove hnone).perm.cons _)
  nodup := by
    refine List.nodup_append'.mpr ⟨h.nodup, List.nodup_singleton _, ?_⟩
    intro turn hturn hnext
    obtain rfl := List.mem_singleton.mp hnext
    exact Nat.lt_irrefl _ (h.below _ hturn)
  below turn hturn := by
    rcases List.mem_append.mp hturn with hturn | hnext
    · exact Nat.lt_succ_of_lt (h.below turn hturn)
    · obtain rfl := List.mem_singleton.mp hnext
      exact Nat.lt_succ_self _
  dialling p hp turn? hprogress := by
    rcases List.mem_cons.mp hp with rfl | hp
    · cases hprogress
    · obtain ⟨hempty, turn, rfl, hhead⟩ :=
        h.dialling p (List.mem_cons_of_mem _ hp) turn? hprogress
      refine ⟨hempty, turn, rfl, ?_⟩
      rw [List.head?_append, hhead]
      rfl

/-- A request keeps its turn. -/
theorem keep (h : Slot ((id, r) :: others) turns next connections)
    (hturn : r.progress.ticket? = some turn) (hsame : progress.ticket? = some turn)
    (hdialling : ∀ turn?, progress = .dialling turn? →
      connections = [] ∧ turns.head? = some turn) :
    Slot ((id, { r with progress }) :: others) turns next connections where
  perm := by
    have hperm := h.perm
    rw [ticketsOf_cons_of_some hturn] at hperm
    rwa [ticketsOf_cons_of_some hsame]
  nodup := h.nodup
  below := h.below
  dialling p hp turn? hprogress := by
    rcases List.mem_cons.mp hp with rfl | hp
    · obtain ⟨hempty, hhead⟩ := hdialling turn? hprogress
      have hprogress : progress = .dialling turn? := hprogress
      rw [hprogress] at hsame
      exact ⟨hempty, turn, hsame, hhead⟩
    · exact h.dialling p (List.mem_cons_of_mem _ hp) turn? hprogress

/-- Nobody else has the turn of a request. -/
theorem fresh (h : Slot ((id, r) :: others) turns next connections)
    (hturn : r.progress.ticket? = some turn) : turn ∉ ticketsOf others := by
  have hnodup := h.perm.nodup h.nodup
  rw [ticketsOf_cons_of_some hturn] at hnodup
  exact (List.nodup_cons.mp hnodup).1

theorem eq_of_ticket (h : Slot requests turns next connections) {p p' : Nat × InFlight}
    (hp : p ∈ requests) (hp' : p' ∈ requests) (hturn : p.2.progress.ticket? = some turn)
    (hturn' : p'.2.progress.ticket? = some turn) : p' = p := by
  obtain ⟨before, behind, rfl⟩ := List.append_of_mem hp
  have hslot : Slot (p :: (before ++ behind)) turns next connections :=
    h.reorder List.perm_middle
  rcases List.mem_cons.mp (List.perm_middle.mem_iff.mp hp') with heq | hmem
  · exact heq
  · exact absurd (List.mem_filterMap.mpr ⟨p', hmem, hturn'⟩) (hslot.fresh hturn)

/-- A request gives up its turn, wherever it stands in line. -/
theorem withdraw (h : Slot ((id, r) :: others) turns next connections)
    (hturn : r.progress.ticket? = some turn) :
    Slot others (turns.filter (· ≠ turn)) next connections := by
  have hperm : turns.Perm (turn :: ticketsOf others) := by
    have hperm := h.perm
    rwa [ticketsOf_cons_of_some hturn] at hperm
  have hfresh := h.fresh hturn
  have hothers : (ticketsOf others).filter (· ≠ turn) = ticketsOf others := by
    refine List.filter_eq_self.mpr ?_
    intro other hother
    have hne : other ≠ turn := by
      rintro rfl
      exact hfresh hother
    simpa using hne
  refine ⟨?_, h.nodup.filter _, fun other hother => h.below other (List.mem_filter.mp hother).1, ?_⟩
  · have hfilter := hperm.filter (· ≠ turn)
    rwa [List.filter_cons_of_neg (by simp), hothers] at hfilter
  · -- whoever dials stays at the head, as the turn that is given up is another one
    intro p hp turn? hprogress
    obtain ⟨hempty, other, rfl, hhead⟩ := h.dialling p (List.mem_cons_of_mem _ hp) turn? hprogress
    refine ⟨hempty, other, rfl, ?_⟩
    have hne : other ≠ turn := by
      rintro rfl
      refine hfresh (List.mem_filterMap.mpr ⟨p, hp, ?_⟩)
      rw [hprogress]
      rfl
    obtain ⟨rest, rfl⟩ := List.head?_eq_some_iff.mp hhead
    rw [List.filter_cons_of_pos (by simpa using hne)]
    rfl

/-- Whoever has the slot leaves it, and is under way on the connection that is stored. -/
theorem leave (h : Slot ((id, r) :: others) turns next connections)
    (hturn : r.progress.ticket? = some turn) (hhead : turns.head? = some turn)
    (connections' : List Connection) (k : Nat) (call : Call) :
    Slot ((id, { r with progress := .running k call }) :: others) (turns.filter (· ≠ turn)) next
      connections' := by
  have hleft := h.withdraw hturn
  refine add ⟨hleft.perm, hleft.nodup, hleft.below, ?_⟩ rfl ?_
  · -- nobody else dials, as the slot is not theirs
    intro p hp turn? hprogress
    obtain ⟨-, other, rfl, hother⟩ := hleft.dialling p hp turn? hprogress
    obtain ⟨-, _, heq, hhead'⟩ := h.dialling p (List.mem_cons_of_mem _ hp) _ hprogress
    cases heq
    obtain rfl := Option.some.inj (hhead.symm.trans hhead')
    have hne := (List.mem_filter.mp (List.mem_of_mem_head? hother)).2
    simp at hne
  · intro turn? hprogress
    cases hprogress

/-- As long as a request is not under way, there is one whose turn it is, or one without a turn if
it is nobody's. -/
theorem exists_first (h : Slot requests turns next connections)
    (hwaiting : ∃ p ∈ requests, p.2.Idle) :
    ∃ p ∈ requests, p.2.Idle ∧ p.2.progress.ticket? = turns.head? := by
  cases turns with
  | nil =>
    obtain ⟨p, hp, hidle⟩ := hwaiting
    have hnone : ticketsOf requests = [] := h.perm.symm.eq_nil
    exact ⟨p, hp, hidle, List.filterMap_eq_nil_iff.mp hnone p hp⟩
  | cons turn turns =>
    have hticket : turn ∈ ticketsOf requests := h.perm.mem_iff.mp List.mem_cons_self
    obtain ⟨p, hp, hturn⟩ := List.mem_filterMap.mp hticket
    refine ⟨p, hp, ?_, hturn⟩
    intro k call hrunning
    rw [hrunning] at hturn
    cases hturn

end Slot

variable {c : Client} {dial : Dial} {conn conn' : Connection} {conn? : Option Connection}
  {call : Call}

theorem shares_ofConfig (config : Config) : (ofConfig config).Shares where
  perm := .refl _
  nodup := List.nodup_nil
  below turn hturn := by cases hturn
  dialling p hp := by cases hp

theorem Shares.begin (h : c.Shares) (event : String) (payload : Payload) :
    (c.begin event payload).2.Shares := by
  have hadd : Slot ((c.nextRequest, ⟨event, payload, .fresh⟩) :: c.requests) c.turns c.nextTurn
      c.connections := by
    refine h.add rfl ?_
    intro turn? hprogress
    cases hprogress
  exact hadd.reorder (List.perm_append_singleton _ _).symm

/-- The slot does not change while a connection does. -/
theorem Shares.onConnection (h : c.Shares) (k : Nat) (act : Connection → Connection) :
    (c.onConnection k act).Shares := by
  refine Slot.of_connections h ?_
  intro hempty
  rw [Client.onConnection, hempty, List.modify_nil]

/-! ### Clients with one connection -/

/-- A client has at most one connection, which is stored and open. -/
structure Lone (c : Client) (conn? : Option Connection) : Prop where
  connections : c.connections = conn?.toList
  stored : c.stored = conn?.map fun _ => 0
  isOpen : ∀ conn, conn? = some conn → conn.status = .open

/-- The connection there is, or the one with this room for the peer that would be opened. -/
def link (c : Client) (capacity : Option Nat) (conn? : Option Connection) : Connection :=
  conn?.getD (.opened c.config.socketPath capacity)

theorem openConnection?_of_lone (h : c.Lone conn?) :
    c.openConnection? = conn?.map fun _ => 0 := by
  rw [openConnection?, h.stored, h.connections]
  cases conn? with
  | none => rfl
  | some conn => simp [h.isOpen conn rfl]

/-- A connection that is stored is not released. -/
theorem releaseUnused_of_stored (hstored : c.stored = some 0)
    (hconnections : c.connections = [conn]) : c.releaseUnused = c := by
  have hreferred : c.isReferred 0 = true := by simp [isReferred, hstored]
  have hsame : (c.connections.mapIdx fun id connection =>
      if c.isReferred id || connection.released then connection else connection.release) =
        c.connections := by
    rw [hconnections, List.mapIdx_cons, List.mapIdx_nil, hreferred]
    rfl
  rw [releaseUnused, hsame]

theorem map_fst_setProgress (c : Client) (id : Nat) (progress : Progress) :
    (c.setProgress id progress).requests.map Prod.fst = c.requests.map Prod.fst := by
  rw [requests_setProgress, List.map_map]
  rfl

/-- A request under way goes on with its call. -/
theorem poll_of_running (hkeys : (c.requests.map Prod.fst).Nodup) (hmem : (id, r) ∈ c.requests)
    {k : Nat} (hrunning : r.progress = .running k call) (hconn : c.connections[k]? = some conn) :
    c.poll now dial id = c.absorb id k (call.poll conn now) := by
  rw [poll, lookup_of_mem hkeys hmem]
  simp only [hrunning, hconn]

/-- What a client whose connection is stored notes of a poll on it. -/
theorem absorb_of_stored (hstored : c.stored = some 0) (hconnections : c.connections = [conn])
    (result : EnvelopeClient.Poll × Connection) :
    c.absorb id 0 result =
      match result.1 with
      | .pending call =>
        (.pending, { c with connections := [result.2] }.setProgress id (.running 0 call))
      | .finished outcome =>
        (.finished (replyOf outcome), { c with
          connections := [result.2], requests := c.requests.filter (·.1 ≠ id) }) := by
  have hnoted : c.onConnection 0 (fun _ => result.2) = { c with connections := [result.2] } := by
    rw [onConnection, hconnections]
    rfl
  rw [absorb, hnoted]
  cases result.1 with
  | pending call => rfl
  | finished outcome =>
    exact congrArg (Prod.mk _) (releaseUnused_of_stored (c := { c with
      connections := [result.2], requests := c.requests.filter (·.1 ≠ id) }) hstored rfl)

/-- A request under way on the stored connection has no turn, so its end leaves the turns as they
are. -/
theorem Shares.finish (h : c.Shares) (hkeys : (c.requests.map Prod.fst).Nodup)
    (hmem : (id, r) ∈ c.requests) {k : Nat} (hrunning : r.progress = .running k call)
    (hconnections : c.connections = [conn]) (conn' : Connection) :
    Shares { c with
      connections := [conn'], requests := c.requests.filter (·.1 ≠ id) } := by
  have hslot := (h.onConnection 0 fun _ => conn').reorder (perm_cons_filter hkeys hmem)
  have hleft := hslot.remove (by rw [hrunning]; rfl)
  rw [Client.onConnection, hconnections] at hleft
  exact hleft

/-- While it goes on, the turns stay as they are too. -/
theorem Shares.goesOn (h : c.Shares) (hkeys : (c.requests.map Prod.fst).Nodup)
    (hmem : (id, r) ∈ c.requests) {k : Nat} (hrunning : r.progress = .running k call)
    (hconnections : c.connections = [conn]) (conn' : Connection) (call' : Call) :
    Shares ({ c with connections := [conn'] }.setProgress id (.running k call')) := by
  have hleft := h.finish hkeys hmem hrunning hconnections conn'
  have hslot : Slot ((id, { r with progress := .running k call' }) ::
      c.requests.filter (·.1 ≠ id)) c.turns c.nextTurn [conn'] := by
    refine hleft.add rfl ?_
    intro turn? hprogress
    cases hprogress
  exact hslot.reorder (setProgress_perm (c := { c with connections := [conn'] }) hkeys hmem _).symm

/-! ### Polling a request that is not under way -/

/-- A request goes on waiting. -/
def Waits (c : Client) (id : Nat) (result : Poll × Client) : Prop :=
  ∃ turns nextTurn progress, (∀ k call, progress ≠ .running k call) ∧
    result = (.pending, { c with turns, nextTurn }.setProgress id progress) ∧ result.2.Shares

/-- A request fails, as the socket cannot be dialled. -/
def Fails (c : Client) (id : Nat) (failure : Failure) (result : Poll × Client) : Prop :=
  ∃ turns nextTurn,
    result = (.finished (.error failure), { c with
        turns, nextTurn, requests := c.requests.filter (·.1 ≠ id) }) ∧ result.2.Shares

/-- A request begins on a connection, and the client takes note of what that comes to. -/
def Enters (c : Client) (now id : Nat) (r : InFlight) (conn : Connection)
    (result : Poll × Client) : Prop :=
  ∃ turns nextTurn,
    result = { c with turns, nextTurn, connections := [conn], stored := some 0 }.absorb id 0
        (conn.ask now r.event r.payload c.config.timeouts.request?) ∧ result.2.Shares

/-- A request is sent on a connection, if that is what asking there comes to. -/
def Sends (c : Client) (now id : Nat) (r : InFlight) (conn : Connection)
    (result : Poll × Client) : Prop :=
  ∃ turns nextTurn, ∀ call conn', conn.ask now r.event r.payload none = (.pending call, conn') →
    result = (.pending,
        { c with turns, nextTurn, connections := [conn'], stored := some 0 }.setProgress id
          (.running 0 call)) ∧
      result.2.Shares

/-- Without a deadline a request that begins on a connection is sent there. -/
theorem Enters.sends {result : Poll × Client} (h : Enters c now id r conn result)
    (hlimit : c.config.timeouts.request? = none) : Sends c now id r conn result := by
  obtain ⟨turns, nextTurn, heq, hshares⟩ := h
  refine ⟨turns, nextTurn, ?_⟩
  intro call conn' hask
  refine ⟨?_, hshares⟩
  rw [heq, hlimit, hask, absorb_of_stored rfl rfl]

theorem startOn_eq (hconnections : c.connections = [conn]) :
    c.startOn now id 0 r =
      c.absorb id 0 (conn.ask now r.event r.payload c.config.timeouts.request?) := by
  have hconn : c.connections[0]? = some conn := by rw [hconnections]; rfl
  rw [startOn, hconn]

/-- A request that is not under way, and the turn at which it comes to the slot. -/
structure Seat (c : Client) (id : Nat) (r : InFlight) (turn : Nat) : Prop where
  numbers : (c.requests.map Prod.fst).Nodup
  mem : (id, r) ∈ c.requests
  slot : Slot ((id, { r with progress := .queued turn }) :: c.requests.filter (·.1 ≠ id)) c.turns
    c.nextTurn c.connections

/-- Whoever does not have the slot waits for it. -/
theorem Seat.waits (h : c.Seat id r turn) (hhead : c.turns.head? ≠ some turn) :
    Waits c id (c.pollSlot now dial id r turn) := by
  rw [pollSlot, if_neg hhead]
  refine ⟨c.turns, c.nextTurn, .queued turn, ?_, rfl,
    h.slot.reorder (setProgress_perm h.numbers h.mem _).symm⟩
  intro k call heq
  cases heq

/-- Whoever has the slot waits for an answer of the socket if there is no connection. -/
theorem Seat.dials (h : c.Seat id r turn) (hhead : c.turns.head? = some turn)
    (hlone : c.Lone none) : Waits c id (c.pollSlot now .waiting id r turn) := by
  have hslot : Slot ((id, { r with progress := .dialling (some turn) }) ::
      c.requests.filter (·.1 ≠ id)) c.turns c.nextTurn c.connections := by
    refine h.slot.keep rfl rfl ?_
    intro turn? heq
    exact ⟨hlone.connections, hhead⟩
  rw [pollSlot, if_pos hhead, openConnection?_of_lone hlone]
  refine ⟨c.turns, c.nextTurn, .dialling (some turn), ?_, rfl,
    hslot.reorder (setProgress_perm h.numbers h.mem _).symm⟩
  intro k call heq
  cases heq

/-- Whoever has the slot fails if the socket cannot be dialled. -/
theorem Seat.fails (h : c.Seat id r turn) (hhead : c.turns.head? = some turn)
    (hlone : c.Lone none) (failure : Failure) :
    Fails c id failure (c.pollSlot now (.failed failure) id r turn) := by
  let left : Client := { c with
    turns := c.turns.filter (· ≠ turn), requests := c.requests.filter (·.1 ≠ id) }
  have hrelease : left.releaseUnused = left := by
    have hempty : left.connections = [] := hlone.connections
    rw [releaseUnused, hempty, List.mapIdx_nil, ← hempty]
  have heq : c.pollSlot now (.failed failure) id r turn = (.finished (.error failure), left) := by
    rw [pollSlot, if_pos hhead, openConnection?_of_lone hlone]
    exact congrArg (Prod.mk _) hrelease
  rw [heq]
  exact ⟨_, _, rfl, (h.slot.leave rfl hhead c.connections 0 (.close 0)).remove rfl⟩

/-- Whoever has the slot begins on the connection there is, or on one that is opened now. -/
theorem Seat.enters (h : c.Seat id r turn) (hhead : c.turns.head? = some turn)
    (hlone : c.Lone conn?) {capacity : Option Nat}
    (hdial : conn? = none → dial = .accepted capacity) :
    Enters c now id r (c.link capacity conn?) (c.pollSlot now dial id r turn) := by
  let conn := c.link capacity conn?
  let entered : Client := { c with
    turns := c.turns.filter (· ≠ turn), connections := [conn], stored := some 0 }
  let result := entered.absorb id 0 (conn.ask now r.event r.payload c.config.timeouts.request?)
  have hresult : entered.absorb id 0 _ = _ := absorb_of_stored (c := entered) rfl rfl
    (conn.ask now r.event r.payload c.config.timeouts.request?)
  have hshares : result.2.Shares := by
    show (entered.absorb id 0 _).2.Shares
    rw [hresult]
    generalize conn.ask now r.event r.payload c.config.timeouts.request? = asked
    obtain ⟨poll, conn'⟩ := asked
    cases poll with
    | pending call =>
      exact (h.slot.leave rfl hhead [conn'] 0 call).reorder
        (setProgress_perm h.numbers h.mem _).symm
    | finished outcome => exact (h.slot.leave rfl hhead [conn'] 0 (.close 0)).remove rfl
  suffices heq : c.pollSlot now dial id r turn = result from
    ⟨_, _, heq, by rw [heq]; exact hshares⟩
  rw [pollSlot, if_pos hhead, openConnection?_of_lone hlone]
  cases conn? with
  | some conn =>
    have hconnections : c.connections = [conn] := hlone.connections
    have hstored : c.stored = some 0 := hlone.stored
    have hsame : entered = c.leaveTurns (some turn) := by
      show entered = { c with
        turns := c.turns.filter (· ≠ turn), connections := c.connections, stored := c.stored }
      rw [hconnections, hstored]
    show (c.leaveTurns (some turn)).startOn now id 0 r = entered.absorb id 0 _
    rw [startOn_eq (c := c.leaveTurns (some turn)) hconnections, hsame]
    rfl
  | none =>
    obtain rfl := hdial rfl
    have hempty : c.connections = [] := hlone.connections
    have hstart : entered.startOn now id 0 r = result := startOn_eq rfl
    -- the new connection is stored, so it is not released
    have hrelease : result.2.releaseUnused = result.2 := by
      show (entered.absorb id 0 _).2.releaseUnused = (entered.absorb id 0 _).2
      rw [hresult]
      cases (conn.ask now r.event r.payload c.config.timeouts.request?).1 <;>
        exact releaseUnused_of_stored rfl rfl
    simp only [Option.map_none, pollDial, hempty, List.nil_append, List.length_nil, leaveTurns]
    exact (congrArg (fun p : Poll × Client => (p.1, p.2.releaseUnused)) hstart).trans
      (congrArg (Prod.mk _) hrelease)

/-- A request that is not under way has a turn at the slot, or takes the next one, and polling it is
to come to the slot at that turn. -/
theorem exists_seat (h : c.Shares) (hnumbers : (c.requests.map Prod.fst).Nodup)
    (hmode : c.config.mode = .shared) (hmem : (id, r) ∈ c.requests) (hidle : r.Idle) :
    ∃ turns nextTurn turn, Seat { c with turns, nextTurn } id r turn ∧
      (∀ now dial, c.poll now dial id = { c with turns, nextTurn }.pollSlot now dial id r turn) ∧
      (r.progress.ticket? = some turn ∧ turns = c.turns ∨
        r.progress.ticket? = none ∧ turns = c.turns ++ [turn]) := by
  have hslot : Slot ((id, r) :: c.requests.filter (·.1 ≠ id)) c.turns c.nextTurn c.connections :=
    h.reorder (perm_cons_filter hnumbers hmem)
  have hlookup := lookup_of_mem hnumbers hmem
  obtain ⟨event, payload, progress⟩ := r
  cases progress with
  | fresh =>
    refine ⟨c.turns ++ [c.nextTurn], c.nextTurn + 1, c.nextTurn,
      ⟨hnumbers, hmem, hslot.enrol rfl⟩, ?_, .inr ⟨rfl, rfl⟩⟩
    intro now dial
    rw [poll, hlookup]
    simp only [hmode]
  | queued turn =>
    refine ⟨c.turns, c.nextTurn, turn, ⟨hnumbers, hmem, hslot⟩, ?_, .inl ⟨rfl, rfl⟩⟩
    intro now dial
    rw [poll, hlookup]
  | dialling turn? =>
    obtain ⟨hempty, turn, rfl, hhead⟩ := hslot.dialling _ List.mem_cons_self turn? rfl
    have hqueued : Slot ((id, ⟨event, payload, .queued turn⟩) :: c.requests.filter (·.1 ≠ id))
        c.turns c.nextTurn c.connections := by
      refine hslot.keep rfl rfl ?_
      intro turn? heq
      cases heq
    refine ⟨c.turns, c.nextTurn, turn, ⟨hnumbers, hmem, hqueued⟩, ?_, .inl ⟨rfl, rfl⟩⟩
    -- it has the slot, which is empty
    have hnone : c.openConnection? = none := by
      rw [openConnection?, hempty]
      exact Option.filter_eq_none_iff.mpr (by simp)
    intro now dial
    rw [poll, hlookup, pollSlot, if_pos hhead]
    simp only [hnone]
  | running k call => exact absurd rfl (hidle k call)

section

variable (h : c.Shares) (hnumbers : (c.requests.map Prod.fst).Nodup)
  (hmode : c.config.mode = .shared) (hlone : c.Lone conn?)

include h hnumbers hmode hlone

/-- A request that is not under way goes on waiting, or begins on the connection there is or on one
that is opened for it, unless the socket cannot be dialled. -/
theorem waits_or_enters (hmem : (id, r) ∈ c.requests) (hidle : r.Idle) (now : Nat) (dial : Dial) :
    Waits c id (c.poll now dial id) ∨
      (∃ capacity, Enters c now id r (c.link capacity conn?) (c.poll now dial id)) ∨
      ∃ failure, dial = .failed failure ∧ Fails c id failure (c.poll now dial id) := by
  obtain ⟨turns, nextTurn, turn, hseat, hpoll, -⟩ := exists_seat h hnumbers hmode hmem hidle
  have hlone' : Lone { c with turns, nextTurn } conn? :=
    ⟨hlone.connections, hlone.stored, hlone.isOpen⟩
  rw [hpoll]
  by_cases hhead : turns.head? = some turn
  · cases conn? with
    | some conn =>
      refine .inr (.inl ⟨none, hseat.enters hhead hlone' ?_⟩)
      intro heq
      cases heq
    | none =>
      cases dial with
      | waiting => exact .inl (hseat.dials hhead hlone')
      | failed failure => exact .inr (.inr ⟨failure, rfl, hseat.fails hhead hlone' failure⟩)
      | accepted capacity =>
        exact .inr (.inl ⟨capacity, hseat.enters hhead hlone' fun _ => rfl⟩)
  · exact .inl (hseat.waits hhead)

variable (hlimit : c.config.timeouts.request? = none)

include hlimit

/-- A request that is not under way goes on waiting, or is sent on the connection there is or on one
that is opened for it. -/
theorem waits_or_sends (hmem : (id, r) ∈ c.requests) (hidle : r.Idle)
    (hdial : ∀ failure, dial ≠ .failed failure) :
    Waits c id (c.poll now dial id) ∨
      ∃ capacity, Sends c now id r (c.link capacity conn?) (c.poll now dial id) := by
  rcases waits_or_enters h hnumbers hmode hlone hmem hidle now dial with
    hwaits | ⟨capacity, henters⟩ | ⟨failure, heq, -⟩
  · exact .inl hwaits
  · exact .inr ⟨capacity, henters.sends hlimit⟩
  · exact absurd heq (hdial failure)

/-- As long as a request is not under way, there is one that is sent when it is polled. -/
theorem exists_sends (hwaiting : ∃ p ∈ c.requests, p.2.Idle) :
    ∃ id r, (id, r) ∈ c.requests ∧ r.Idle ∧
      ∀ now capacity,
        Sends c now id r (c.link capacity conn?) (c.poll now (.accepted capacity) id) := by
  obtain ⟨⟨id, r⟩, hmem, hidle, hfirst⟩ := h.exists_first hwaiting
  refine ⟨id, r, hmem, hidle, ?_⟩
  intro now capacity
  obtain ⟨turns, nextTurn, turn, hseat, hpoll, hcase⟩ := exists_seat h hnumbers hmode hmem hidle
  rw [hpoll]
  refine (hseat.enters ?_ ⟨hlone.connections, hlone.stored, hlone.isOpen⟩ fun _ => rfl).sends hlimit
  show turns.head? = some turn
  rcases hcase with ⟨hticket, rfl⟩ | ⟨hnone, rfl⟩
  · exact hfirst.symm.trans hticket
  · have hempty : c.turns = [] := List.head?_eq_none_iff.mp (hfirst.symm.trans hnone)
    rw [hempty]
    rfl

end

end Client

end EnvelopeClient
