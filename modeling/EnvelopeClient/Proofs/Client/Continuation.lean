import EnvelopeClient.Proofs.Client.Visits
import EnvelopeClient.Proofs.Connection.Departure

/-!
# What a poll of a client comes to

`Client.polled_poll` says once what a poll of a request can do: the request stays off the
connections, or it gets under way on one of them, or a call that is under way is polled there
(`Client.Polled`). What has to be known of a move is read off it: how a request under way came to be
what it is, and that every connection only changes as connections do (`Client.Continues`).
-/

namespace EnvelopeClient.Client

open Exchange Connection

/-- The exchange of a connection. One that is not opened yet will begin with a fresh one. -/
def exchangeOn (c : Client) (k : Nat) : Exchange :=
  ((c.connections[k]?).map (·.exchange)).getD .opened

/-- Two clients that differ in no request and in nothing a waiter can notice. -/
structure Alike (c c' : Client) : Prop where
  config : c'.config = c.config
  requests : c'.requests = c.requests
  exchangeOn : ∀ k, c'.exchangeOn k = c.exchangeOn k

/-- A client takes note of what polling a request's call on a connection came to. -/
structure Notes (c : Client) (id k : Nat) (result : EnvelopeClient.Poll × Connection)
    (p : Poll × Client) : Prop where
  config : p.2.config = c.config
  pending : ∀ call, result.1 = .pending call → p.1 = .pending
  finished : ∀ outcome, result.1 = .finished outcome → p.1 = .finished (replyOf outcome)
  exchangeOn : ∀ j, p.2.exchangeOn j = if j = k then result.2.exchange else c.exchangeOn j
  requests : ∀ q ∈ p.2.requests, q ∈ c.requests ∨ ∃ r call, (id, r) ∈ c.requests ∧
    result.1 = .pending call ∧ q = (id, { r with progress := .running k call })

/-- What a poll of a request comes to. -/
inductive Polled (c : Client) (now : Nat) (dial : Dial) (id : Nat) (p : Poll × Client) : Prop where
  /-- The request, if there is one, stays off the connections. -/
  | aside (hanswer : ∀ reply, p.1 = .finished reply →
        ∃ failure, dial = .failed failure ∧ reply = .error failure)
      (hconfig : p.2.config = c.config) (hexchange : ∀ j, p.2.exchangeOn j = c.exchangeOn j)
      (hrequests : ∀ q ∈ p.2.requests, q ∈ c.requests ∨ q.2.Idle)
  /-- It begins on a connection that is there, or on one that is opened. -/
  | enters {r : InFlight} {k : Nat} {conn : Connection} (hmem : (id, r) ∈ c.requests)
      (hidle : r.Idle) (halive : conn.released = false) (hsound : conn.exchange.Sound)
      (hexchange : c.exchangeOn k = conn.exchange)
      (hnotes : c.Notes id k (conn.ask now r.event r.payload c.config.timeouts.request?) p)
  /-- It goes on with its call. -/
  | goesOn {r : InFlight} {k : Nat} {call : Call} {conn : Connection} (hmem : (id, r) ∈ c.requests)
      (hrunning : r.progress = .running k call) (hconn : c.connections[k]? = some conn)
      (hnotes : c.Notes id k (call.poll conn now) p)

/-- Every connection of a client goes on as connections do, and new ones begin afresh. -/
structure Continues (c c' : Client) : Prop where
  config : c'.config = c.config
  leadsTo : ∀ k, (c.exchangeOn k).LeadsTo (c'.exchangeOn k)

variable {c c' c'' : Client} {id k now : Nat} {dial : Dial} {turn : Option Nat} {r : InFlight}
  {conn : Connection} {result : EnvelopeClient.Poll × Connection} {p : Poll × Client}

/-! ### The exchanges of a client -/

theorem exchangeOn_eq (hconn : c.connections[k]? = some conn) : c.exchangeOn k = conn.exchange := by
  rw [exchangeOn, hconn]
  rfl

theorem exchangeOn_congr (h : c'.connections = c.connections) (k : Nat) :
    c'.exchangeOn k = c.exchangeOn k := by
  rw [exchangeOn, h]
  rfl

theorem exchangeOn_releaseUnused (c : Client) (k : Nat) :
    c.releaseUnused.exchangeOn k = c.exchangeOn k := by
  rw [exchangeOn, exchangeOn, releaseUnused, List.getElem?_mapIdx, Option.map_map]
  congr 2
  funext conn
  simp only [Function.comp_apply]
  split <;> rfl

theorem exchangeOn_connect (c : Client) (peer : String) (capacity : Option Nat)
    (stored : Option Nat) (k : Nat) :
    exchangeOn { c with connections := c.connections ++ [.opened peer capacity], stored } k =
      c.exchangeOn k := by
  rw [exchangeOn, exchangeOn]
  rcases Nat.lt_trichotomy k c.connections.length with hlt | rfl | hgt
  · simp only [List.getElem?_append_left hlt]
  · rw [List.getElem?_concat_length, List.getElem?_eq_none (Nat.le_refl _)]
    rfl
  · rw [List.getElem?_eq_none (by simpa using Nat.succ_le_of_lt hgt),
      List.getElem?_eq_none (Nat.le_of_lt hgt)]

theorem exchangeOn_onConnection {act : Connection → Connection}
    (hconn : c.connections[k]? = some conn) (j : Nat) :
    (c.onConnection k act).exchangeOn j =
      if j = k then (act conn).exchange else c.exchangeOn j := by
  rw [exchangeOn, onConnection, List.getElem?_modify]
  by_cases hj : j = k
  · subst hj
    simp [hconn]
  · simp [exchangeOn, hj, Ne.symm hj]

/-! ### What a poll comes to -/

theorem Alike.refl (c : Client) : c.Alike c := ⟨rfl, rfl, fun _ => rfl⟩

theorem Notes.of_alike (h : c'.Notes id k result p) (halike : c.Alike c') :
    c.Notes id k result p where
  config := h.config.trans halike.config
  pending := h.pending
  finished := h.finished
  exchangeOn j := by rw [h.exchangeOn, halike.exchangeOn]
  requests q hq := by
    rw [← halike.requests]
    exact h.requests q hq

/-- A request that has failed has failed with its call. -/
theorem Notes.of_failed (h : c.Notes id k result p) {failure : Failure}
    (hp : p.1 = .finished (.error failure)) : result.1 = .failed failure := by
  cases hresult : result.1 with
  | pending call => cases (h.pending call hresult).symm.trans hp
  | finished outcome =>
    have hreply := (h.finished outcome hresult).symm.trans hp
    cases outcome with
    | done => cases hreply
    | reply r =>
      cases hreply
      rfl

theorem Notes.releaseUnused (h : c.Notes id k result p) :
    c.Notes id k result (p.1, p.2.releaseUnused) where
  config := h.config
  pending := h.pending
  finished := h.finished
  exchangeOn j := (exchangeOn_releaseUnused p.2 j).trans (h.exchangeOn j)
  requests := h.requests

theorem alike_leaveTurns (c : Client) (turn : Option Nat) : c.Alike (c.leaveTurns turn) := by
  cases turn <;> exact ⟨rfl, rfl, fun _ => rfl⟩

theorem Alike.trans (h : c.Alike c') (h' : c'.Alike c'') : c.Alike c'' where
  config := h'.config.trans h.config
  requests := h'.requests.trans h.requests
  exchangeOn k := (h'.exchangeOn k).trans (h.exchangeOn k)

theorem notes_absorb (hconn : c.connections[k]? = some conn) (id : Nat)
    (result : EnvelopeClient.Poll × Connection) :
    c.Notes id k result (c.absorb id k result) := by
  have hexchange : ∀ j, (c.onConnection k fun _ => result.2).exchangeOn j = _ :=
    exchangeOn_onConnection hconn
  obtain ⟨poll, conn'⟩ := result
  cases poll with
  | pending call =>
    refine ⟨rfl, fun _ _ => rfl, by simp, hexchange, ?_⟩
    rintro ⟨n, r'⟩ hq
    obtain ⟨⟨m, r⟩, hmem, heq⟩ := List.mem_map.mp hq
    dsimp only at heq
    split at heq
    · next hm =>
      subst hm
      exact .inr ⟨r, call, hmem, rfl, heq.symm⟩
    · exact .inl (heq ▸ hmem)
  | finished outcome =>
    refine ⟨rfl, by simp, ?_, ?_, ?_⟩
    · rintro _ ⟨⟩
      rfl
    · intro j
      exact (exchangeOn_releaseUnused _ j).trans (hexchange j)
    · intro q hq
      exact .inl (List.mem_filter.mp hq).1

/-- A request that gets no further than the slot or the socket. -/
theorem polled_setProgress (halike : c.Alike c') {progress : Progress}
    (hidle : ∀ j call, progress ≠ .running j call) :
    c.Polled now dial id (.pending, c'.setProgress id progress) := by
  refine .aside (by simp) halike.config halike.exchangeOn ?_
  intro q hq
  rw [requests_setProgress] at hq
  obtain ⟨⟨n, r⟩, hmem, rfl⟩ := List.mem_map.mp hq
  rw [halike.requests] at hmem
  by_cases hn : n = id
  · exact .inr (by simpa [hn, InFlight.Idle] using hidle)
  · exact .inl (by simpa [hn] using hmem)

theorem polled_pollDial (halike : c.Alike c') (hmem : (id, r) ∈ c.requests) (hidle : r.Idle) :
    c.Polled now dial id (c'.pollDial now dial id r turn) := by
  cases dial with
  | waiting => exact polled_setProgress halike (by simp)
  | failed failure =>
    have hleft := halike.trans (alike_leaveTurns c' turn)
    refine .aside ?_ hleft.config ?_ ?_
    · rintro _ ⟨⟩
      exact ⟨failure, rfl, rfl⟩
    · intro j
      exact (exchangeOn_releaseUnused _ j).trans (hleft.exchangeOn j)
    · intro q hq
      rw [← hleft.requests]
      exact .inl (List.mem_filter.mp hq).1
  | accepted capacity =>
    let opened : Client := { c' with
      connections := c'.connections ++ [.opened c'.config.socketPath capacity]
      stored := if turn.isSome then some c'.connections.length else c'.stored }
    have hconnect : c'.Alike opened := ⟨rfl, rfl, exchangeOn_connect c' _ _ _⟩
    have hopened := (halike.trans hconnect).trans (alike_leaveTurns opened turn)
    have hconn : (opened.leaveTurns turn).connections[c'.connections.length]? =
        some (.opened c'.config.socketPath capacity) := by
      cases turn <;> exact List.getElem?_concat_length
    have hnotes := notes_absorb hconn id
      ((Connection.opened c'.config.socketPath capacity).ask now r.event r.payload
        c.config.timeouts.request?)
    refine .enters hmem hidle rfl sound_opened
      ((hopened.exchangeOn _).symm.trans (exchangeOn_eq hconn)) ?_
    have heq : c'.pollDial now (.accepted capacity) id r turn =
        (((opened.leaveTurns turn).startOn now id c'.connections.length r).1,
          ((opened.leaveTurns turn).startOn now id c'.connections.length r).2.releaseUnused) := rfl
    rw [heq, startOn_eq_absorb hconn, hopened.config]
    exact (hnotes.of_alike hopened).releaseUnused

theorem polled_pollSlot (h : c'.Orderly) (halike : c.Alike c') (hmem : (id, r) ∈ c.requests)
    (hidle : r.Idle) (turn : Nat) : c.Polled now dial id (c'.pollSlot now dial id r turn) := by
  rw [pollSlot]
  split
  · cases hopen : c'.openConnection? with
    | none => exact polled_pollDial halike hmem hidle
    | some k =>
      obtain ⟨hstored, conn, hconn, -⟩ := openConnection?_eq_some.mp hopen
      have halive := h.alive k conn hconn (.inl hstored)
      have hgone : conn.isGone = false := by simp [isGone, halive]
      have hconn' : (c'.leaveTurns (some turn)).connections[k]? = some conn := hconn
      have hnotes := notes_absorb hconn' id
        (conn.ask now r.event r.payload c'.config.timeouts.request?)
      refine .enters hmem hidle halive (h.accounts k conn hconn hgone).sound
        ((halike.exchangeOn k).symm.trans (exchangeOn_eq hconn)) ?_
      simp only [startOn_eq_absorb hconn']
      rw [← halike.config]
      exact hnotes.of_alike (halike.trans (alike_leaveTurns c' (some turn)))
  · exact polled_setProgress halike (by simp)

/-- What a poll of a request comes to, in every mode of a client. -/
theorem polled_poll (h : c.Orderly) (now : Nat) (dial : Dial) (id : Nat) :
    c.Polled now dial id (c.poll now dial id) := by
  rw [poll]
  cases hlookup : c.requests.lookup id with
  | none => exact .aside (by simp) rfl (fun _ => rfl) fun _ hq => .inl hq
  | some request =>
    have hmem := mem_of_lookup hlookup
    obtain ⟨event, payload, progress⟩ := request
    cases progress with
    | fresh =>
      have hidle := InFlight.idle_fresh event payload
      cases hmode : c.config.mode with
      | perRequest => exact polled_pollDial (.refl c) hmem hidle
      | shared =>
        let queued : Client :=
          { c with turns := c.turns ++ [c.nextTurn], nextTurn := c.nextTurn + 1 }
        have hqueued : queued.Orderly := h
        have halike : c.Alike queued := ⟨rfl, rfl, fun _ => rfl⟩
        exact polled_pollSlot hqueued halike hmem hidle c.nextTurn
    | queued turn => exact polled_pollSlot h (.refl c) hmem (InFlight.idle_queued _ _ _) turn
    | dialling turn => exact polled_pollDial (.refl c) hmem (InFlight.idle_dialling _ _ _)
    | running k call =>
      cases hconn : c.connections[k]? with
      | none =>
        simp only [hconn]
        exact .aside (by simp) rfl (fun _ => rfl) fun _ hq => .inl hq
      | some conn =>
        simp only [hconn]
        exact .goesOn hmem rfl hconn (notes_absorb hconn id _)

/-! ### Connections go on -/

theorem Continues.trans (h : c.Continues c') (h' : c'.Continues c'') : c.Continues c'' where
  config := h'.config.trans h.config
  leadsTo k := (h.leadsTo k).trans (h'.leadsTo k)

theorem continues_of_eq (hconfig : c'.config = c.config)
    (hexchange : ∀ k, c'.exchangeOn k = c.exchangeOn k) : c.Continues c' where
  config := hconfig
  leadsTo k := hexchange k ▸ .refl _

theorem Notes.continues (h : c.Notes id k result p)
    (hleads : (c.exchangeOn k).LeadsTo result.2.exchange) : c.Continues p.2 where
  config := h.config
  leadsTo j := by
    rw [h.exchangeOn]
    by_cases hj : j = k
    · subst hj
      rwa [if_pos rfl]
    · rw [if_neg hj]
      exact .refl _

theorem continues_onConnection {act : Connection → Connection}
    (h : ∀ conn, c.connections[k]? = some conn → conn.exchange.LeadsTo (act conn).exchange) :
    c.Continues (c.onConnection k act) where
  config := rfl
  leadsTo j := by
    cases hconn : c.connections[k]? with
    | none =>
      have hsame : c.connections.modify k act = c.connections :=
        List.modify_eq_self (List.getElem?_eq_none_iff.mp hconn)
      have hcongr : (c.onConnection k act).exchangeOn j = c.exchangeOn j := exchangeOn_congr hsame j
      rw [hcongr]
      exact .refl _
    | some conn =>
      rw [exchangeOn_onConnection hconn]
      by_cases hj : j = k
      · subst hj
        rw [if_pos rfl, exchangeOn_eq hconn]
        exact h conn hconn
      · rw [if_neg hj]
        exact .refl _

theorem Polled.continues (h : c.Polled now dial id p) (horderly : c.Orderly) : c.Continues p.2 := by
  cases h with
  | aside _ hconfig hexchange _ => exact continues_of_eq hconfig hexchange
  | @enters r k conn hmem hidle halive hsound hexchange hnotes =>
    have hgone : conn.isGone = false := by simp [isGone, halive]
    obtain ⟨_, -, hchanges⟩ :=
      (begins_ask hsound hgone now r.event r.payload c.config.timeouts.request?).changes
    exact hnotes.continues (hexchange ▸ .of_evolves hchanges.exchange)
  | @goesOn r k call conn hmem hrunning hconn hnotes =>
    obtain ⟨halive, -⟩ := horderly.under_way hmem hrunning hconn
    have hgone : conn.isGone = false := by simp [isGone, halive]
    have hevolves := (polls_poll hgone call now).changes.exchange
    exact hnotes.continues (exchangeOn_eq hconn ▸ .of_evolves hevolves)

/-- Dropping a request lets its waiters go. -/
theorem continues_drop (c : Client) (id : Nat) : c.Continues (c.drop id) := by
  rw [drop]
  cases hlookup : c.requests.lookup id with
  | none => exact continues_of_eq rfl fun _ => rfl
  | some request =>
    obtain ⟨event, payload, progress⟩ := request
    have hfinish : ∀ c' : Client, c'.Continues (c'.finish id) := fun c' =>
      continues_of_eq rfl (exchangeOn_releaseUnused { c' with requests := _ })
    refine Continues.trans ?_ (hfinish _)
    cases progress with
    | fresh => exact continues_of_eq rfl fun _ => rfl
    | queued turn => exact continues_of_eq rfl (alike_leaveTurns c (some turn)).exchangeOn
    | dialling turn =>
      have halike := alike_leaveTurns c turn
      exact continues_of_eq halike.config halike.exchangeOn
    | running k call =>
      refine continues_onConnection ?_
      intro conn _
      have hevolves : Evolves "" _ conn.exchange (call.drop conn).exchange :=
        .letGo (changes_drop call conn).exchange
      exact .of_evolves hevolves

theorem continues_incident (c : Client) (k : Nat) (what : Connection.Incident) :
    c.Continues (c.onConnection k (·.befall what)) := by
  refine continues_onConnection ?_
  intro conn _
  cases what with
  | trap operation trap => cases operation <;> exact .refl _
  | reader =>
    rw [befall]
    cases hstep : conn.readerStep with
    | none => exact .refl _
    | some conn' => exact .of_evolves (Connection.evolves_readerStep hstep).1
  | _ => exact .refl _

theorem continues_move (h : c.Orderly) (m : Move) : c.Continues (c.move m) := by
  cases m with
  | begin event payload => exact continues_of_eq rfl fun _ => rfl
  | poll id now dial => exact (polled_poll h now dial id).continues h
  | drop id => exact continues_drop c id
  | incident k what => exact continues_incident c k what

theorem continues_run (h : c.Orderly) (moves : List Move) : c.Continues (c.run moves) := by
  induction moves generalizing c with
  | nil => exact continues_of_eq rfl fun _ => rfl
  | cons m moves ih => exact (continues_move h m).trans (ih (h.move m))

/-- Every connection of a client began afresh. -/
theorem leadsTo_exchangeOn (config : Config) (moves : List Move) (k : Nat) :
    opened.LeadsTo (((ofConfig config).run moves).exchangeOn k) :=
  (continues_run (orderly_ofConfig config) moves).leadsTo k

/-! ### Requests under way -/

theorem Orderly.request_eq (h : c.Orderly) {r' : InFlight} (hmem : (id, r) ∈ c.requests)
    (hmem' : (id, r') ∈ c.requests) : r = r' :=
  congrArg Prod.snd (List.inj_on_of_nodup_map h.numbers hmem hmem' rfl)

/-- What a request under way was before a move: the same, or a call that goes on, or a request that
had not begun. -/
theorem running_of_move (h : c.Orderly) {m : Move} {call' : Call} {r' : InFlight}
    (hmem : (id, r') ∈ (c.move m).requests) (hrunning : r'.progress = .running k call') :
    (id, r') ∈ c.requests ∨ ∃ now dial r call, m = .poll id now dial ∧ (id, r) ∈ c.requests ∧
      r' = { r with progress := .running k call' } ∧ call.GoesOn now call' ∧
      (r.progress = .running k call ∨ r.Idle ∧ ∃ reply error s, s.event = r.event ∧
        call = .ask reply error s c.config.timeouts.request?) := by
  cases m with
  | begin event payload =>
    rcases List.mem_append.mp hmem with hold | hnew
    · exact .inl hold
    · obtain ⟨rfl, rfl⟩ : id = c.nextRequest ∧ r' = ⟨event, payload, .fresh⟩ := by simpa using hnew
      cases hrunning
  | drop n =>
    rw [move, drop] at hmem
    cases hlookup : c.requests.lookup n with
    | none =>
      rw [hlookup] at hmem
      exact .inl hmem
    | some request =>
      obtain ⟨event, payload, progress⟩ := request
      rw [hlookup] at hmem
      have hmem' := (List.mem_filter.mp hmem).1
      cases progress with
      | fresh => exact .inl hmem'
      | queued turn => exact .inl hmem'
      | dialling turn => exact .inl ((alike_leaveTurns c turn).requests ▸ hmem')
      | running j call => exact .inl hmem'
  | incident j what => exact .inl hmem
  | poll n now dial =>
    cases polled_poll h now dial n with
    | aside _ _ _ hrequests =>
      rcases hrequests _ hmem with hold | hidle
      · exact .inl hold
      · exact absurd hrunning (hidle k call')
    | enters hmem' hidle _ _ _ hnotes =>
      rcases hnotes.requests _ hmem with hold | ⟨r, call, hr, hcall, heq⟩
      · exact .inl hold
      · obtain ⟨rfl, rfl⟩ := Prod.mk.inj heq
        obtain ⟨rfl, rfl⟩ := Progress.running.inj hrunning
        obtain rfl := h.request_eq hr hmem'
        obtain ⟨reply, error, s, hevent, hgoesOn⟩ := goesOn_ask now hcall
        refine .inr ⟨now, dial, r, _, rfl, hr, rfl, hgoesOn, .inr ⟨hidle, ?_⟩⟩
        exact ⟨reply, error, s, hevent, rfl⟩
    | goesOn hmem' hrunning' _ hnotes =>
      rcases hnotes.requests _ hmem with hold | ⟨r, call, hr, hcall, heq⟩
      · exact .inl hold
      · obtain ⟨rfl, rfl⟩ := Prod.mk.inj heq
        obtain ⟨rfl, rfl⟩ := Progress.running.inj hrunning
        obtain rfl := h.request_eq hr hmem'
        exact .inr ⟨now, dial, r, _, rfl, hr, rfl, goesOn_poll hcall, .inl hrunning'⟩

end EnvelopeClient.Client
