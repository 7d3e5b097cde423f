import EnvelopeClient.Proofs.Client.Runs
import EnvelopeClient.Proofs.Connection.Accounts
import EnvelopeClient.Proofs.Connection.Transport

/-!
# Which connection accounts for which request

A request under way on a connection has its waiters there, and on no other. `Client.Ledger` says that
every connection of a client accounts for the waiters of the requests under way on it and for nobody
else, and that a connection somebody refers to is not released. Every move keeps it (`Orderly.run`).
-/

namespace EnvelopeClient

open Exchange Connection

namespace InFlight

/-- The waiters of a request on a connection. -/
def waitersOn (r : InFlight) (k : Nat) : List Nat :=
  match r.progress with
  | .running connection call => if connection = k then call.waiters else []
  | _ => []

/-- Whether a request is not under way on any connection. -/
def Idle (r : InFlight) : Prop := ∀ k call, r.progress ≠ .running k call

variable {r : InFlight} {k : Nat} {call : Call}

theorem idle_fresh (event : String) (payload : Payload) : Idle ⟨event, payload, .fresh⟩ := by
  intro k call heq
  cases heq

theorem idle_queued (event : String) (payload : Payload) (turn : Nat) :
    Idle ⟨event, payload, .queued turn⟩ := by
  intro k call heq
  cases heq

theorem idle_dialling (event : String) (payload : Payload) (turn : Option Nat) :
    Idle ⟨event, payload, .dialling turn⟩ := by
  intro k call heq
  cases heq

theorem waitersOn_eq_nil (h : ∀ call, r.progress ≠ .running k call) : r.waitersOn k = [] := by
  unfold waitersOn
  split
  · next hrunning =>
    refine if_neg ?_
    rintro rfl
    exact h _ hrunning
  · rfl

theorem waitersOn_self (h : r.progress = .running k call) : r.waitersOn k = call.waiters := by
  rw [waitersOn, h]
  exact if_pos rfl

end InFlight

namespace Client

/-- The waiters on a connection of some requests. -/
def waitersOf (requests : List (Nat × InFlight)) (k : Nat) : List Nat :=
  requests.flatMap (·.2.waitersOn k)

/-- Whether some requests, or the slot, refer to a connection. -/
def Refers (requests : List (Nat × InFlight)) (stored : Option Nat) (k : Nat) : Prop :=
  stored = some k ∨ ∃ p ∈ requests, ∃ call, p.2.progress = .running k call

/-- Every connection accounts for the requests under way on it. -/
structure Ledger (next : Nat) (requests : List (Nat × InFlight)) (stored : Option Nat)
    (connections : List Connection) : Prop where
  numbers : (requests.map Prod.fst).Nodup
  below : ∀ p ∈ requests, p.1 < next
  running : ∀ p ∈ requests, ∀ k call, p.2.progress = .running k call →
    k < connections.length ∧ call.waiters.length = call.slots ∧ call.slots = slotsFor p.2.event
  alive : ∀ k conn, connections[k]? = some conn → Refers requests stored k → conn.released = false
  accounts : ∀ k conn, connections[k]? = some conn → conn.isGone = false →
    Accounts (waitersOf requests k) conn.exchange

/-- What is left of a request once a poll of it on a connection has come to something. -/
def kept (id : Nat) (r : InFlight) (k : Nat) : EnvelopeClient.Poll → List (Nat × InFlight)
  | .pending call => [(id, { r with progress := .running k call })]
  | .finished _ => []

variable {requests requests' others : List (Nat × InFlight)} {stored : Option Nat}
  {connections : List Connection} {id k next : Nat} {r r' : InFlight} {conn conn' : Connection}

theorem waitersOf_cons (p : Nat × InFlight) (requests : List (Nat × InFlight)) (k : Nat) :
    waitersOf (p :: requests) k = p.2.waitersOn k ++ waitersOf requests k :=
  List.flatMap_cons

theorem waitersOf_append (requests requests' : List (Nat × InFlight)) (k : Nat) :
    waitersOf (requests ++ requests') k = waitersOf requests k ++ waitersOf requests' k :=
  List.flatMap_append

/-- Nobody is under way on a connection. -/
theorem waitersOf_eq_nil (h : ∀ p ∈ requests, ∀ call, p.2.progress ≠ .running k call) :
    waitersOf requests k = [] := by
  refine List.flatMap_eq_nil_iff.mpr ?_
  intro p hp
  exact InFlight.waitersOn_eq_nil (h p hp)

theorem Refers.cons (h : Refers others stored k) (p : Nat × InFlight) :
    Refers (p :: others) stored k := by
  rcases h with hstored | ⟨q, hq, hrunning⟩
  · exact .inl hstored
  · exact .inr ⟨q, List.mem_cons_of_mem p hq, hrunning⟩

theorem Refers.of_cons {p : Nat × InFlight} (h : Refers (p :: others) stored k)
    (hp : ∀ call, p.2.progress ≠ .running k call) : Refers others stored k := by
  rcases h with hstored | ⟨q, hq, call, hrunning⟩
  · exact .inl hstored
  · rcases List.mem_cons.mp hq with rfl | hq
    · exact absurd hrunning (hp call)
    · exact .inr ⟨q, hq, call, hrunning⟩

theorem mem_kept {p : Nat × InFlight} {poll : EnvelopeClient.Poll} (h : p ∈ kept id r k poll) :
    ∃ call, poll = .pending call ∧ p = (id, { r with progress := .running k call }) := by
  cases poll with
  | finished outcome => cases h
  | pending call => exact ⟨call, rfl, List.mem_singleton.mp h⟩

theorem waitersOf_kept_self (poll : EnvelopeClient.Poll) :
    waitersOf (kept id r k poll) k = poll.waiters := by
  cases poll with
  | finished outcome => rfl
  | pending call =>
    rw [kept, waitersOf, List.flatMap_singleton]
    exact InFlight.waitersOn_self rfl

/-- What is left of a request is under way on no other connection. -/
theorem waitersOf_kept_of_ne {j : Nat} (hj : j ≠ k) (poll : EnvelopeClient.Poll) :
    waitersOf (kept id r k poll) j = [] := by
  refine waitersOf_eq_nil ?_
  intro p hp call hrunning
  obtain ⟨call', -, rfl⟩ := mem_kept hp
  exact hj (Progress.running.inj hrunning).1.symm

theorem getElem?_modify_cases {f : Connection → Connection} {j : Nat}
    (h : (connections.modify k f)[j]? = some conn) :
    ∃ before, connections[j]? = some before ∧
      (j = k ∧ conn = f before ∨ j ≠ k ∧ conn = before) := by
  rw [List.getElem?_modify, Option.map_eq_map, Option.map_eq_some_iff] at h
  obtain ⟨before, hbefore, rfl⟩ := h
  refine ⟨before, hbefore, ?_⟩
  by_cases hk : k = j
  · exact .inl ⟨hk.symm, if_pos hk⟩
  · exact .inr ⟨Ne.symm hk, if_neg hk⟩

/-! ### What keeps the ledger -/

namespace Ledger

theorem perm (h : Ledger next requests stored connections) (hperm : requests.Perm requests') :
    Ledger next requests' stored connections where
  numbers := (hperm.map _).nodup h.numbers
  below p hp := h.below p (hperm.mem_iff.mpr hp)
  running p hp := h.running p (hperm.mem_iff.mpr hp)
  alive k conn hconn hrefers := by
    refine h.alive k conn hconn (hrefers.imp_right ?_)
    rintro ⟨p, hp, hrunning⟩
    exact ⟨p, hperm.mem_iff.mpr hp, hrunning⟩
  accounts k conn hconn hgone := (h.accounts k conn hconn hgone).perm (hperm.flatMap_right _)

/-- A request that is not under way comes. -/
theorem add (h : Ledger next others stored connections) (hid : id ∉ others.map Prod.fst)
    (hlt : id < next) (hidle : r.Idle) : Ledger next ((id, r) :: others) stored connections where
  numbers := List.nodup_cons.mpr ⟨hid, h.numbers⟩
  below p hp := by
    rcases List.mem_cons.mp hp with rfl | hp
    · exact hlt
    · exact h.below p hp
  running p hp k call hrunning := by
    rcases List.mem_cons.mp hp with rfl | hp
    · exact absurd hrunning (hidle k call)
    · exact h.running p hp k call hrunning
  alive k conn hconn hrefers := h.alive k conn hconn (hrefers.of_cons (hidle k))
  accounts k conn hconn hgone := by
    rw [waitersOf_cons, InFlight.waitersOn_eq_nil (hidle k), List.nil_append]
    exact h.accounts k conn hconn hgone

/-- A request that is not under way goes. -/
theorem remove (h : Ledger next ((id, r) :: others) stored connections) (hidle : r.Idle) :
    Ledger next others stored connections where
  numbers := (List.nodup_cons.mp h.numbers).2
  below p hp := h.below p (List.mem_cons_of_mem _ hp)
  running p hp := h.running p (List.mem_cons_of_mem _ hp)
  alive k conn hconn hrefers := h.alive k conn hconn (hrefers.cons _)
  accounts k conn hconn hgone := by
    have haccounts := h.accounts k conn hconn hgone
    rwa [waitersOf_cons, InFlight.waitersOn_eq_nil (hidle k), List.nil_append] at haccounts

theorem replace (h : Ledger next ((id, r) :: others) stored connections) (hidle : r.Idle)
    (hidle' : r'.Idle) : Ledger next ((id, r') :: others) stored connections :=
  (h.remove hidle).add (List.nodup_cons.mp h.numbers).1 (h.below _ List.mem_cons_self) hidle'

/-- A connection is opened, and may be stored. -/
theorem connect (h : Ledger next requests stored connections) (peer : String) (capacity : Option Nat)
    {stored' : Option Nat} (hstored : stored' = stored ∨ stored' = some connections.length) :
    Ledger next requests stored' (connections ++ [.opened peer capacity]) where
  numbers := h.numbers
  below := h.below
  running p hp k call hrunning := by
    obtain ⟨hlt, hcall⟩ := h.running p hp k call hrunning
    refine ⟨?_, hcall⟩
    rw [List.length_append]
    exact Nat.lt_add_right _ hlt
  alive k conn hconn hrefers := by
    rcases getElem?_concat_cases hconn with ⟨rfl, rfl⟩ | ⟨hlt, hconn⟩
    · rfl
    · refine h.alive k conn hconn (hrefers.imp_left ?_)
      intro heq
      rcases hstored with rfl | rfl
      · exact heq
      · obtain rfl := Option.some.inj heq
        exact absurd hlt (Nat.lt_irrefl _)
  accounts k conn hconn hgone := by
    rcases getElem?_concat_cases hconn with ⟨rfl, rfl⟩ | ⟨-, hconn⟩
    · -- nobody is under way on it yet
      have hnobody : waitersOf requests connections.length = [] := by
        refine waitersOf_eq_nil ?_
        intro p hp call hrunning
        exact Nat.lt_irrefl _ (h.running p hp _ call hrunning).1
      rw [hnobody]
      exact accounts_opened
    · exact h.accounts k conn hconn hgone

/-- A connection changes without a caller: it accounts for whom it accounted for before. -/
theorem modify (h : Ledger next requests stored connections) {f : Connection → Connection}
    (hreleased : ∀ c, (f c).released = c.released)
    (hgone : ∀ c, (f c).isGone = false → c.isGone = false)
    (haccounts : ∀ c ids, Accounts ids c.exchange → Accounts ids (f c).exchange) :
    Ledger next requests stored (connections.modify k f) where
  numbers := h.numbers
  below := h.below
  running p hp j call hrunning := by
    rw [List.length_modify]
    exact h.running p hp j call hrunning
  alive j conn hconn hrefers := by
    obtain ⟨before, hbefore, heq⟩ := getElem?_modify_cases hconn
    have halive := h.alive j before hbefore hrefers
    rcases heq with ⟨-, rfl⟩ | ⟨-, rfl⟩
    · exact (hreleased before).trans halive
    · exact halive
  accounts j conn hconn hgone' := by
    obtain ⟨before, hbefore, heq⟩ := getElem?_modify_cases hconn
    rcases heq with ⟨-, rfl⟩ | ⟨-, rfl⟩
    · exact haccounts before _ (h.accounts j before hbefore (hgone before hgone'))
    · exact h.accounts j _ hbefore hgone'

/-- A request is polled on a connection it may already be under way on. -/
theorem absorb {poll : EnvelopeClient.Poll} (h : Ledger next ((id, r) :: others) stored connections)
    (hconn : connections[k]? = some conn)
    (helsewhere : ∀ j ≠ k, ∀ call, r.progress ≠ .running j call) (hreleased : conn'.released = false)
    (haccounts : Accounts (poll.waiters ++ waitersOf others k) conn'.exchange)
    (hcalls : ∀ call, poll = .pending call →
      call.waiters.length = call.slots ∧ call.slots = slotsFor r.event) :
    Ledger next (kept id r k poll ++ others) stored (connections.modify k fun _ => conn') where
  numbers := by
    cases poll with
    | finished outcome => exact (List.nodup_cons.mp h.numbers).2
    | pending call => exact h.numbers
  below p hp := by
    rcases List.mem_append.mp hp with hp | hp
    · obtain ⟨call, -, rfl⟩ := mem_kept hp
      exact h.below (id, r) List.mem_cons_self
    · exact h.below p (List.mem_cons_of_mem _ hp)
  running p hp j call hrunning := by
    rw [List.length_modify]
    rcases List.mem_append.mp hp with hp | hp
    · obtain ⟨call', hpending, rfl⟩ := mem_kept hp
      obtain ⟨rfl, rfl⟩ := Progress.running.inj hrunning
      exact ⟨(List.getElem?_eq_some_iff.mp hconn).1, hcalls call' hpending⟩
    · exact h.running p (List.mem_cons_of_mem _ hp) j call hrunning
  alive j c hc hrefers := by
    obtain ⟨before, hbefore, heq⟩ := getElem?_modify_cases hc
    rcases heq with ⟨-, rfl⟩ | ⟨hj, rfl⟩
    · exact hreleased
    · -- whoever refers to another connection referred to it before
      refine h.alive j _ hbefore (hrefers.imp_right ?_)
      rintro ⟨p, hp, call, hrunning⟩
      rcases List.mem_append.mp hp with hp | hp
      · obtain ⟨call', -, rfl⟩ := mem_kept hp
        exact absurd (Progress.running.inj hrunning).1.symm hj
      · exact ⟨p, List.mem_cons_of_mem _ hp, call, hrunning⟩
  accounts j c hc hgone := by
    rw [waitersOf_append]
    obtain ⟨before, hbefore, heq⟩ := getElem?_modify_cases hc
    rcases heq with ⟨rfl, rfl⟩ | ⟨hj, rfl⟩
    · rw [waitersOf_kept_self]
      exact haccounts
    · have hbefore := h.accounts j _ hbefore hgone
      rw [waitersOf_cons, InFlight.waitersOn_eq_nil (helsewhere j hj)] at hbefore
      rwa [waitersOf_kept_of_ne hj]

end Ledger

/-! ### Clients -/

/-- Every connection of a client accounts for the requests under way on it. -/
def Orderly (c : Client) : Prop := Ledger c.nextRequest c.requests c.stored c.connections

variable {c : Client} {now : Nat} {dial : Dial} {turn : Option Nat}

theorem isReferred_iff (c : Client) (k : Nat) :
    c.isReferred k = true ↔ Refers c.requests c.stored k := by
  rw [isReferred, Bool.or_eq_true, decide_eq_true_iff, Refers, isUsed, List.any_eq_true]
  refine or_congr_right ?_
  constructor
  · rintro ⟨⟨id, r⟩, hp, hused⟩
    cases hprogress : r.progress with
    | running connection call =>
      simp only [hprogress, decide_eq_true_iff] at hused
      exact ⟨(id, r), hp, call, hused ▸ hprogress⟩
    | _ => simp [hprogress] at hused
  · rintro ⟨⟨id, r⟩, hp, call, hrunning⟩
    refine ⟨(id, r), hp, ?_⟩
    have hprogress : r.progress = .running k call := hrunning
    simp [hprogress]

theorem Orderly.releaseUnused (h : c.Orderly) : c.releaseUnused.Orderly := by
  have hcases : ∀ {k conn}, c.releaseUnused.connections[k]? = some conn →
      ∃ before, c.connections[k]? = some before ∧
        (conn = before ∨ conn = before.release ∧ ¬Refers c.requests c.stored k) := by
    intro k conn hconn
    rw [Client.releaseUnused, List.getElem?_mapIdx, Option.map_eq_some_iff] at hconn
    obtain ⟨before, hbefore, rfl⟩ := hconn
    refine ⟨before, hbefore, ?_⟩
    rw [← isReferred_iff]
    by_cases hrefers : c.isReferred k = true
    · exact .inl (by simp [hrefers])
    · cases hreleased : before.released with
      | true => exact .inl (by simp)
      | false => exact .inr ⟨by simp [hrefers], hrefers⟩
  refine ⟨h.numbers, h.below, ?_, ?_, ?_⟩
  · intro p hp k call hrunning
    rw [Client.releaseUnused, List.length_mapIdx]
    exact h.running p hp k call hrunning
  · intro k conn hconn hrefers
    obtain ⟨before, hbefore, rfl | ⟨-, hunused⟩⟩ := hcases hconn
    · exact h.alive k _ hbefore hrefers
    · exact absurd hrefers hunused
  · intro k conn hconn hgone
    obtain ⟨before, hbefore, rfl | ⟨rfl, -⟩⟩ := hcases hconn
    · exact h.accounts k _ hbefore hgone
    · refine h.accounts k before hbefore ?_
      have hreading : before.isReading = true := by
        simpa [Connection.isGone, Connection.release, Connection.isReading] using hgone
      simp [Connection.isGone, hreading]

/-- A request comes further, and the others stay where they are. -/
theorem requests_setProgress (c : Client) (id : Nat) (progress : Progress) :
    (c.setProgress id progress).requests =
      c.requests.map fun p => (p.1, if p.1 = id then { p.2 with progress } else p.2) := by
  refine List.map_congr_left ?_
  rintro ⟨n, r⟩ -
  by_cases hn : n = id <;> simp [hn]

theorem setProgress_perm (hkeys : (c.requests.map Prod.fst).Nodup) (hmem : (id, r) ∈ c.requests)
    (progress : Progress) :
    (c.setProgress id progress).requests.Perm
      ((id, { r with progress }) :: c.requests.filter (·.1 ≠ id)) := by
  have hothers : (c.requests.filter (·.1 ≠ id)).map
      (fun p => (p.1, if p.1 = id then { p.2 with progress } else p.2)) =
        c.requests.filter (·.1 ≠ id) := by
    refine (List.map_congr_left ?_).trans (List.map_id _)
    intro p hp
    have hne : p.1 ≠ id := by simpa using (List.mem_filter.mp hp).2
    rw [if_neg hne]
    rfl
  have hperm := (perm_cons_filter hkeys hmem).map
    fun p => (p.1, if p.1 = id then { p.2 with progress } else p.2)
  rwa [List.map_cons, hothers, if_pos rfl, ← requests_setProgress] at hperm

section

variable (h : c.Orderly) (hmem : (id, r) ∈ c.requests)

include h hmem

/-- A request before all others. -/
theorem Orderly.front : Ledger c.nextRequest ((id, r) :: c.requests.filter (·.1 ≠ id)) c.stored
    c.connections :=
  h.perm (perm_cons_filter h.numbers hmem)

/-- The connection a request is under way on is not released, and accounts for it. -/
theorem Orderly.under_way {call : Call} (hrunning : r.progress = .running k call)
    (hconn : c.connections[k]? = some conn) :
    conn.released = false ∧
      Accounts (call.waiters ++ waitersOf (c.requests.filter (·.1 ≠ id)) k) conn.exchange := by
  have halive := h.alive k conn hconn (.inr ⟨(id, r), hmem, call, hrunning⟩)
  have haccounts := (h.front hmem).accounts k conn hconn (by simp [Connection.isGone, halive])
  rw [waitersOf_cons, InFlight.waitersOn_self hrunning] at haccounts
  exact ⟨halive, haccounts⟩

/-- A request that is not under way comes further, but not to a connection. -/
theorem Orderly.setProgress (hidle : r.Idle) {progress : Progress}
    (hidle' : InFlight.Idle { r with progress }) : (c.setProgress id progress).Orderly :=
  ((h.front hmem).replace hidle hidle').perm (setProgress_perm h.numbers hmem progress).symm

/-- A request ends that is not under way. -/
theorem Orderly.finish (hidle : r.Idle) : (c.finish id).Orderly :=
  releaseUnused (c := { c with requests := c.requests.filter (·.1 ≠ id) })
    ((h.front hmem).remove hidle)

/-- A client takes note of a poll on a connection. -/
theorem Orderly.absorb {result : EnvelopeClient.Poll × Connection}
    (hconn : c.connections[k]? = some conn)
    (helsewhere : ∀ j ≠ k, ∀ call, r.progress ≠ .running j call) (hreleased : result.2.released = false)
    (haccounts : Accounts (result.1.waiters ++ waitersOf (c.requests.filter (·.1 ≠ id)) k)
      result.2.exchange)
    (hcalls : ∀ call, result.1 = .pending call →
      call.waiters.length = call.slots ∧ call.slots = slotsFor r.event) :
    (c.absorb id k result).2.Orderly := by
  have hledger := (h.front hmem).absorb hconn helsewhere hreleased haccounts hcalls
  obtain ⟨poll, conn'⟩ := result
  cases poll with
  | pending call => exact hledger.perm (setProgress_perm h.numbers hmem _).symm
  | finished outcome =>
    exact releaseUnused (c := { c.onConnection k fun _ => conn' with
      requests := c.requests.filter (·.1 ≠ id) }) hledger

/-- A request gets under way on a connection. -/
theorem Orderly.startOn (hidle : r.Idle)
    (halive : ∀ conn, c.connections[k]? = some conn → conn.released = false) :
    (c.startOn now id k r).2.Orderly := by
  rw [Client.startOn]
  cases hconn : c.connections[k]? with
  | none => exact h
  | some conn =>
    have hgone : conn.isGone = false := by simp [Connection.isGone, halive conn hconn]
    have hfirst := first_ask conn now r.event r.payload c.config.timeouts.request?
    have hothers : Accounts (waitersOf (c.requests.filter (·.1 ≠ id)) k) conn.exchange :=
      ((h.front hmem).remove hidle).accounts k conn hconn hgone
    obtain ⟨_, -, hchanges⟩ := (begins_of_first hothers.sound hgone now hfirst).changes
    refine h.absorb hmem hconn (fun j _ => hidle j) (hchanges.released.trans (halive conn hconn))
      (accounts_first hothers hgone hfirst) ?_
    intro call hcall
    exact ⟨length_first hgone now hfirst hcall, slots_of_ask now hcall⟩

/-- A request that dials waits, fails, or gets under way on a new connection. -/
theorem Orderly.pollDial (hidle : r.Idle) : (c.pollDial now dial id r turn).2.Orderly := by
  cases dial with
  | waiting => exact h.setProgress hmem hidle (InFlight.idle_dialling _ _ _)
  | failed failure => cases turn <;> exact finish (c := c.leaveTurns _) h hmem hidle
  | accepted capacity =>
    let stored := if turn.isSome then some c.connections.length else c.stored
    let opened : Client := { c with
      connections := c.connections ++ [.opened c.config.socketPath capacity], stored }
    have hopened : opened.Orderly := by
      refine h.connect _ _ ?_
      cases turn with
      | none => exact .inl rfl
      | some turn => exact .inr rfl
    have halive : ∀ conn, opened.connections[c.connections.length]? = some conn →
        conn.released = false := by
      intro conn hconn
      rw [List.getElem?_concat_length] at hconn
      cases hconn
      rfl
    cases turn with
    | none => exact releaseUnused (hopened.startOn hmem hidle halive)
    | some turn =>
      exact releaseUnused (startOn (c := opened.leaveTurns (some turn)) hopened hmem hidle halive)

/-- A request that waits for the slot goes on waiting, or dials, or uses the stored connection. -/
theorem Orderly.pollSlot (hidle : r.Idle) (turn : Nat) :
    (c.pollSlot now dial id r turn).2.Orderly := by
  rw [Client.pollSlot]
  split
  · cases hopen : c.openConnection? with
    | none => exact h.pollDial hmem hidle
    | some k =>
      have hstored : c.stored = some k := (Option.filter_eq_some_iff.mp hopen).1
      refine startOn (c := c.leaveTurns (some turn)) h hmem hidle ?_
      intro conn hconn
      exact h.alive k conn hconn (.inl hstored)
  · exact h.setProgress hmem hidle (InFlight.idle_queued _ _ _)

end

/-! ### Moves -/

theorem Orderly.begin (h : c.Orderly) (event : String) (payload : Payload) :
    (c.begin event payload).2.Orderly := by
  have hwider : Ledger (c.nextRequest + 1) c.requests c.stored c.connections :=
    { h with below := fun p hp => Nat.lt_succ_of_lt (h.below p hp) }
  have hfresh : c.nextRequest ∉ c.requests.map Prod.fst := by
    intro hmem
    obtain ⟨p, hp, heq⟩ := List.mem_map.mp hmem
    exact Nat.lt_irrefl _ (heq ▸ h.below p hp)
  exact (hwider.add hfresh (Nat.lt_succ_self _) (InFlight.idle_fresh event payload)).perm
    (List.perm_append_singleton _ _).symm

theorem Orderly.poll (h : c.Orderly) (now : Nat) (dial : Dial) (id : Nat) :
    (c.poll now dial id).2.Orderly := by
  rw [Client.poll]
  cases hlookup : c.requests.lookup id with
  | none => exact h
  | some request =>
    have hmem := mem_of_lookup hlookup
    obtain ⟨event, payload, progress⟩ := request
    cases progress with
    | fresh =>
      have hidle := InFlight.idle_fresh event payload
      cases hmode : c.config.mode with
      | perRequest => exact h.pollDial hmem hidle
      | shared =>
        exact pollSlot (c := { c with turns := c.turns ++ [c.nextTurn], nextTurn := c.nextTurn + 1 })
          h hmem hidle c.nextTurn
    | queued turn => exact h.pollSlot hmem (InFlight.idle_queued _ _ _) turn
    | dialling turn => exact h.pollDial hmem (InFlight.idle_dialling _ _ _)
    | running k call =>
      cases hconn : c.connections[k]? with
      | none =>
        simp only [hconn]
        exact h
      | some conn =>
        simp only [hconn]
        obtain ⟨halive, haccounts⟩ := h.under_way hmem rfl hconn
        obtain ⟨-, hslots, hevent⟩ := h.running _ hmem k call rfl
        have hgone : conn.isGone = false := by simp [Connection.isGone, halive]
        have hreleased := (polls_poll hgone call now).changes.released.trans halive
        refine h.absorb hmem hconn ?_ hreleased (accounts_poll haccounts hgone now) ?_
        · intro j hj call' heq
          exact hj (Progress.running.inj heq).1.symm
        · intro call' hcall'
          exact ⟨length_poll hgone hslots hcall', (goesOn_poll hcall').slots.trans hevent⟩

theorem Orderly.drop (h : c.Orderly) (id : Nat) : (c.drop id).Orderly := by
  rw [Client.drop]
  cases hlookup : c.requests.lookup id with
  | none => exact h
  | some request =>
    have hmem := mem_of_lookup hlookup
    obtain ⟨event, payload, progress⟩ := request
    cases progress with
    | fresh => exact h.finish hmem (InFlight.idle_fresh _ _)
    | queued turn =>
      exact finish (c := c.leaveTurns (some turn)) h hmem (InFlight.idle_queued _ _ _)
    | dialling turn =>
      have hidle := InFlight.idle_dialling event payload turn
      cases turn with
      | none => exact finish (c := c.leaveTurns none) h hmem hidle
      | some turn => exact finish (c := c.leaveTurns (some turn)) h hmem hidle
    | running k call =>
      cases hconn : c.connections[k]? with
      | none =>
        have hlt := (h.running _ hmem k call rfl).1
        rw [List.getElem?_eq_getElem hlt] at hconn
        cases hconn
      | some conn =>
        obtain ⟨halive, haccounts⟩ := h.under_way hmem rfl hconn
        have hmodify : c.connections.modify k call.drop =
            c.connections.modify k fun _ => call.drop conn := by
          refine List.ext_getElem? ?_
          intro j
          rw [List.getElem?_modify, List.getElem?_modify]
          by_cases hj : k = j
          · subst hj
            simp [hconn]
          · simp [hj]
        have hledger : Ledger c.nextRequest (kept id ⟨event, payload, .running k call⟩ k
            (.finished .done) ++ c.requests.filter (·.1 ≠ id)) c.stored
            (c.connections.modify k call.drop) := by
          rw [hmodify]
          refine (h.front hmem).absorb hconn ?_ ((changes_drop call conn).released.trans halive)
            (accounts_drop haccounts) ?_
          · intro j hj call' heq
            exact hj (Progress.running.inj heq).1.symm
          · intro call' heq
            cases heq
        exact releaseUnused (c := { c.onConnection k call.drop with
          requests := c.requests.filter (·.1 ≠ id) }) hledger

/-- A connection that is gone stays gone. -/
theorem isGone_befall {conn : Connection} (h : conn.isGone = true) (what : Connection.Incident) :
    (conn.befall what).isGone = true := by
  cases what with
  | trap operation trap => cases operation <;> exact h
  | reader =>
    rw [befall, Session.readerStep_of_gone h]
    exact h
  | abort =>
    rw [Connection.isGone, Bool.and_eq_true] at h
    rw [befall, Connection.isGone, Connection.abortReader, h.1]
    rfl
  | _ => exact h

/-- What happens to a connection without a caller does not concern its waiters, but for messages
that are handed over and closes. -/
theorem Orderly.incident (h : c.Orderly) (k : Nat) (what : Connection.Incident) :
    (c.onConnection k (·.befall what)).Orderly := by
  refine Ledger.modify h ?_ ?_ ?_
  · intro conn
    cases what with
    | trap operation trap => cases operation <;> rfl
    | reader =>
      rw [befall]
      cases hstep : conn.readerStep with
      | none => rfl
      | some conn' => exact (takes_readerStep hstep).2
    | _ => rfl
  · intro conn hgone
    cases hbefore : conn.isGone with
    | false => rfl
    | true =>
      rw [isGone_befall hbefore] at hgone
      cases hgone
  · intro conn ids haccounts
    cases what with
    | trap operation trap => cases operation <;> exact haccounts
    | reader =>
      rw [befall]
      cases hstep : conn.readerStep with
      | none => exact haccounts
      | some conn' => exact accounts_readerStep haccounts hstep
    | _ => exact haccounts

theorem Orderly.move (h : c.Orderly) (m : Move) : (c.move m).Orderly := by
  cases m with
  | begin event payload => exact h.begin event payload
  | poll id now dial => exact h.poll now dial id
  | drop id => exact h.drop id
  | incident k what => exact h.incident k what

theorem Orderly.run (h : c.Orderly) (moves : List Move) : (c.run moves).Orderly := by
  induction moves generalizing c with
  | nil => exact h
  | cons m moves ih => exact ih (h.move m)

theorem orderly_ofConfig (config : Config) : (ofConfig config).Orderly where
  numbers := List.nodup_nil
  below p hp := by cases hp
  running p hp := by cases hp
  alive k conn hconn := by simp [ofConfig] at hconn
  accounts k conn hconn := by simp [ofConfig] at hconn

end Client

end EnvelopeClient
