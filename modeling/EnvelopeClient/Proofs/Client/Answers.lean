import EnvelopeClient.Proofs.Client.Timeouts
import EnvelopeClient.Proofs.Reception.Relays

/-!
# Where a client's answers come from

The bytes that peers write on the connections of a client (`Client.written`) are all that data can
come from: a request that ends with data ends with that of a message with its own tag that the peer
has told on one of the connections (`Client.answer_told`). That holds in both modes and in whatever
order requests are begun, polled and dropped and connections read, close or fail.
-/

namespace EnvelopeClient.Client

open Exchange Connection Json

/-! ### What is seen of a run -/

/-- The tag of the request that a move begins. -/
def Move.tag? : Move → Option String
  | .begin event _ => some event
  | _ => none

/-- The tags of the requests that are begun, by their numbers. -/
def tags (moves : List Move) : List String := moves.filterMap Move.tag?

/-- The answer a move brings, with the number of the request. -/
def Move.answer? (c : Client) : Move → Option (Nat × Reply)
  | .poll id now dial =>
    match (c.poll now dial id).1 with
    | .finished reply => some (id, reply)
    | .pending => none
  | _ => none

/-- The answers that moves bring, in their order. -/
def answers (c : Client) : List Move → List (Nat × Reply)
  | [] => []
  | m :: moves => (m.answer? c).toList ++ (c.move m).answers moves

/-- What the peer writes at a move on a connection that is there. -/
def Move.writes (c : Client) (k : Nat) : Move → List UInt8
  | .incident j what =>
    if j = k ∧ k < c.connections.length then Reception.written (.incident what) else []
  | _ => []

/-- What the peer writes on a connection in moves. -/
def written (c : Client) (k : Nat) : List Move → List UInt8
  | [] => []
  | m :: moves => m.writes c k ++ (c.move m).written k moves

/-- A connection of a client. One that is not opened yet will begin as a fresh one. -/
def connectionOn (c : Client) (k : Nat) : Connection :=
  (c.connections[k]?).getD (.opened c.config.socketPath none)

variable {c c' : Client} {conn : Connection} {id k now : Nat} {r : InFlight} {dial : Dial}
  {turn : Option Nat} {config : Config} {moves more : List Move} {v : Value}
  {result : EnvelopeClient.Poll × Connection} {p : Poll × Client}

theorem answers_append (c : Client) (moves more : List Move) :
    c.answers (moves ++ more) = c.answers moves ++ (c.run moves).answers more := by
  induction moves generalizing c with
  | nil => rfl
  | cons m moves ih =>
    rw [List.cons_append, answers, answers, ih, List.append_assoc]
    rfl

theorem written_append (c : Client) (k : Nat) (moves more : List Move) :
    c.written k (moves ++ more) = c.written k moves ++ (c.run moves).written k more := by
  induction moves generalizing c with
  | nil => rfl
  | cons m moves ih =>
    rw [List.cons_append, written, written, ih, List.append_assoc]
    rfl

theorem answers_concat (c : Client) (moves : List Move) (m : Move) :
    c.answers (moves ++ [m]) = c.answers moves ++ (m.answer? (c.run moves)).toList := by
  rw [answers_append, answers, answers, List.append_nil]

theorem written_concat (c : Client) (k : Nat) (moves : List Move) (m : Move) :
    c.written k (moves ++ [m]) = c.written k moves ++ m.writes (c.run moves) k := by
  rw [written_append, written, written, List.append_nil]

/-! ### Connections by their numbers -/

theorem connectionOn_eq (hconn : c.connections[k]? = some conn) : c.connectionOn k = conn := by
  rw [connectionOn, hconn]
  rfl

theorem exchange_connectionOn (c : Client) (k : Nat) :
    (c.connectionOn k).exchange = c.exchangeOn k := by
  rw [connectionOn, exchangeOn]
  cases c.connections[k]? <;> rfl

theorem connectionOn_onConnection {act : Connection → Connection}
    (hconn : c.connections[k]? = some conn) (j : Nat) :
    (c.onConnection k act).connectionOn j = if j = k then act conn else c.connectionOn j := by
  rw [connectionOn, onConnection, List.getElem?_modify]
  by_cases hj : j = k
  · subst hj
    simp [hconn]
  · simp [connectionOn, hj, Ne.symm hj]

/-- Nothing happens on a connection that is not there. -/
theorem onConnection_of_missing {act : Connection → Connection} (hconn : c.connections[k]? = none) :
    c.onConnection k act = c := by
  rw [onConnection, List.modify_eq_self (List.getElem?_eq_none_iff.mp hconn)]

theorem byUsers_onConnection {act : Connection → Connection}
    (h : ∀ conn, c.connections[k]? = some conn → ByUsers conn (act conn)) (j : Nat) :
    ByUsers (c.connectionOn j) ((c.onConnection k act).connectionOn j) := by
  cases hconn : c.connections[k]? with
  | none =>
    rw [onConnection_of_missing hconn]
  | some conn =>
    rw [connectionOn_onConnection hconn]
    by_cases hj : j = k
    · subst hj
      rw [if_pos rfl, connectionOn_eq hconn]
      exact h conn hconn
    · rw [if_neg hj]

theorem byUsers_releaseUnused (c : Client) (k : Nat) :
    ByUsers (c.connectionOn k) (c.releaseUnused.connectionOn k) := by
  rw [connectionOn, connectionOn, releaseUnused, List.getElem?_mapIdx]
  cases c.connections[k]? with
  | none => exact .refl
  | some conn =>
    dsimp only [Option.map_some, Option.getD_some]
    split
    · exact .refl
    · exact .single (byUser_release conn)

theorem byUsers_finish (c : Client) (id k : Nat) :
    ByUsers (c.connectionOn k) ((c.finish id).connectionOn k) :=
  byUsers_releaseUnused { c with requests := c.requests.filter (·.1 ≠ id) } k

/-- Of a connection that is opened, only the room for the peer may be another than one expects. -/
theorem byUsers_connect (c : Client) (capacity stored : Option Nat) (k : Nat) :
    ByUsers (c.connectionOn k) (connectionOn { c with
      connections := c.connections ++ [.opened c.config.socketPath capacity], stored } k) := by
  rw [connectionOn, connectionOn]
  rcases Nat.lt_trichotomy k c.connections.length with hlt | rfl | hgt
  · simp only [List.getElem?_append_left hlt]
    exact .refl
  · rw [List.getElem?_concat_length, List.getElem?_eq_none (Nat.le_refl _)]
    exact .single (byUser_outbound _ (.empty capacity))
  · have hmissing : (c.connections ++ [Connection.opened c.config.socketPath capacity])[k]? = none :=
      List.getElem?_eq_none (by simpa using Nat.succ_le_of_lt hgt)
    rw [hmissing, List.getElem?_eq_none (Nat.le_of_lt hgt)]

/-! ### What a poll does -/

/-- What a poll of a request comes to: users do something to connections, the request goes on waiting
for its tag, and if it ends with data, that is what asking on a connection comes to. -/
structure Serves (c : Client) (id : Nat) (p : Poll × Client) : Prop where
  next : p.2.nextRequest = c.nextRequest
  users : ∀ k, ByUsers (c.connectionOn k) (p.2.connectionOn k)
  requests : ∀ q ∈ p.2.requests, q ∈ c.requests ∨ ∃ r, (id, r) ∈ c.requests ∧ q.1 = id ∧
    q.2.event = r.event ∧
      ∀ k call, q.2.progress = .running k call → call.Awaits (p.2.exchangeOn k) r.event
  answer : ∀ v, p.1 = .finished (.ok v) → ∃ r k result outcome, (id, r) ∈ c.requests ∧
    Inquires r.event (c.connectionOn k) result ∧ result.1 = .finished outcome ∧
      replyOf outcome = .ok v

/-- Two clients with the same requests and the same connections, but for some that are fresh or have
only been used. -/
structure Resembles (c c' : Client) : Prop where
  next : c'.nextRequest = c.nextRequest
  requests : c'.requests = c.requests
  users : ∀ k, ByUsers (c.connectionOn k) (c'.connectionOn k)

theorem Serves.of_resembles (h : c'.Serves id p) (hsame : c.Resembles c') : c.Serves id p where
  next := h.next.trans hsame.next
  users k := (hsame.users k).trans (h.users k)
  requests q hq := hsame.requests ▸ h.requests q hq
  answer v hv := by
    obtain ⟨r, k, result, outcome, hmem, hinquires, hresult⟩ := h.answer v hv
    exact ⟨r, k, result, outcome, hsame.requests ▸ hmem, hinquires.of_byUsers (hsame.users k),
      hresult⟩

theorem Resembles.trans {c'' : Client} (h : c.Resembles c') (h' : c'.Resembles c'') :
    c.Resembles c'' where
  next := h'.next.trans h.next
  requests := h'.requests.trans h.requests
  users k := (h.users k).trans (h'.users k)

theorem resembles_leaveTurns (c : Client) (turn : Option Nat) : c.Resembles (c.leaveTurns turn) := by
  cases turn <;> exact ⟨rfl, rfl, fun _ => .refl⟩

theorem resembles_connect (c : Client) (capacity stored : Option Nat) :
    c.Resembles { c with
      connections := c.connections ++ [.opened c.config.socketPath capacity], stored } :=
  ⟨rfl, rfl, byUsers_connect c capacity stored⟩

theorem Serves.releaseUnused (h : c.Serves id p) : c.Serves id (p.1, p.2.releaseUnused) where
  next := h.next
  users k := (h.users k).trans (byUsers_releaseUnused p.2 k)
  requests q hq := by
    rcases h.requests q hq with hold | ⟨r, hmem, hid, hevent, hawaits⟩
    · exact .inl hold
    · refine .inr ⟨r, hmem, hid, hevent, ?_⟩
      intro k call hrunning
      rw [exchangeOn_releaseUnused]
      exact hawaits k call hrunning
  answer := h.answer

/-- A request that gets no further than the slot or the socket. -/
theorem serves_setProgress {progress : Progress} (hidle : ∀ j call, progress ≠ .running j call) :
    c.Serves id (.pending, c.setProgress id progress) where
  next := rfl
  users _ := .refl
  requests q hq := by
    rw [requests_setProgress] at hq
    obtain ⟨⟨n, r⟩, hmem, rfl⟩ := List.mem_map.mp hq
    by_cases hn : n = id
    · subst hn
      refine .inr ⟨r, hmem, rfl, by simp, ?_⟩
      intro j call hrunning
      exact absurd (by simpa using hrunning) (hidle j call)
    · exact .inl (by simpa [hn] using hmem)
  answer v hv := by cases hv

theorem serves_absorb (hnumbers : (c.requests.map Prod.fst).Nodup) (hmem : (id, r) ∈ c.requests)
    (hconn : c.connections[k]? = some conn) (h : Inquires r.event conn result) :
    c.Serves id (c.absorb id k result) := by
  have husers : ∀ j, ByUsers (c.connectionOn j)
      ((c.onConnection k fun _ => result.2).connectionOn j) := by
    refine byUsers_onConnection ?_
    intro other hother
    cases hconn.symm.trans hother
    exact h.users
  obtain ⟨poll, conn'⟩ := result
  cases poll with
  | pending call =>
    refine ⟨rfl, husers, ?_, by simp [absorb]⟩
    intro q hq
    have hmap := requests_setProgress (c.onConnection k fun _ => conn') id (.running k call)
    obtain ⟨⟨n, r'⟩, hmem', rfl⟩ := List.mem_map.mp (hmap ▸ hq)
    have hmem' : (n, r') ∈ c.requests := hmem'
    by_cases hn : n = id
    · subst hn
      obtain rfl : r' = r := congrArg Prod.snd (List.inj_on_of_nodup_map hnumbers hmem' hmem rfl)
      refine .inr ⟨r', hmem, rfl, by simp, ?_⟩
      intro j call' hrunning
      obtain ⟨rfl, rfl⟩ : k = j ∧ call = call' := by simpa using hrunning
      have hexchange : (c.onConnection k fun _ => conn').exchangeOn k = conn'.exchange :=
        (exchangeOn_onConnection hconn k).trans (if_pos rfl)
      exact hexchange.symm ▸ h.pending call rfl
    · exact .inl (by simpa [hn] using hmem')
  | finished outcome =>
    refine ⟨rfl, fun j => (husers j).trans (byUsers_finish _ id j), ?_, ?_⟩
    · intro q hq
      exact .inl (List.mem_filter.mp hq).1
    · intro v hv
      refine ⟨r, k, _, outcome, hmem, (connectionOn_eq hconn).symm ▸ h, rfl, ?_⟩
      simpa [absorb] using hv

theorem serves_pollDial (hnumbers : (c.requests.map Prod.fst).Nodup) (hmem : (id, r) ∈ c.requests) :
    c.Serves id (c.pollDial now dial id r turn) := by
  cases dial with
  | waiting => exact serves_setProgress (by simp)
  | failed failure =>
    have hleft := resembles_leaveTurns c turn
    refine ⟨hleft.next, ?_, ?_, by simp [pollDial]⟩
    · intro k
      exact (hleft.users k).trans (byUsers_finish (c.leaveTurns turn) id k)
    · intro q hq
      exact .inl (hleft.requests ▸ (List.mem_filter.mp hq).1)
  | accepted capacity =>
    let stored := if turn.isSome then some c.connections.length else c.stored
    let opened : Client := { c with
      connections := c.connections ++ [.opened c.config.socketPath capacity], stored }
    have hopened : c.Resembles (opened.leaveTurns turn) :=
      (resembles_connect c capacity stored).trans (resembles_leaveTurns opened turn)
    have hconn : (opened.leaveTurns turn).connections[c.connections.length]? =
        some (.opened c.config.socketPath capacity) := by
      cases turn <;> exact List.getElem?_concat_length
    have heq : c.pollDial now (.accepted capacity) id r turn =
        (((opened.leaveTurns turn).startOn now id c.connections.length r).1,
          ((opened.leaveTurns turn).startOn now id c.connections.length r).2.releaseUnused) := rfl
    rw [heq, startOn_eq_absorb hconn]
    refine (Serves.of_resembles ?_ hopened).releaseUnused
    exact serves_absorb (hopened.requests ▸ hnumbers) (hopened.requests ▸ hmem) hconn
      (inquires_ask sound_opened now r.event r.payload _)

theorem serves_pollSlot (hsound : ∀ k, (c.connectionOn k).exchange.Sound)
    (hnumbers : (c.requests.map Prod.fst).Nodup) (hmem : (id, r) ∈ c.requests) (turn : Nat) :
    c.Serves id (c.pollSlot now dial id r turn) := by
  rw [pollSlot]
  split
  · cases hopen : c.openConnection? with
    | none => exact serves_pollDial hnumbers hmem
    | some k =>
      obtain ⟨-, conn, hconn, -⟩ := openConnection?_eq_some.mp hopen
      have hconn' : (c.leaveTurns (some turn)).connections[k]? = some conn := hconn
      simp only [startOn_eq_absorb hconn']
      refine Serves.of_resembles ?_ (resembles_leaveTurns c (some turn))
      exact serves_absorb (c := c.leaveTurns (some turn)) hnumbers hmem hconn'
        (inquires_ask (connectionOn_eq hconn ▸ hsound k) now r.event r.payload _)
  · exact serves_setProgress (by simp)

/-- Every request under way waits for its own tag. -/
def Await (c : Client) : Prop := ∀ id r k call, (id, r) ∈ c.requests → r.progress = .running k call →
  call.Awaits (c.exchangeOn k) r.event

/-- What a poll of a request comes to, in every mode of a client. -/
theorem serves_poll (hsound : ∀ k, (c.connectionOn k).exchange.Sound)
    (hnumbers : (c.requests.map Prod.fst).Nodup) (hawait : c.Await) (now : Nat) (dial : Dial)
    (id : Nat) : c.Serves id (c.poll now dial id) := by
  have haside : c.Serves id (.pending, c) := ⟨rfl, fun _ => .refl, fun _ => .inl, by simp⟩
  rw [poll]
  cases hlookup : c.requests.lookup id with
  | none => exact haside
  | some request =>
    have hmem := mem_of_lookup hlookup
    obtain ⟨event, payload, progress⟩ := request
    cases progress with
    | fresh =>
      cases hmode : c.config.mode with
      | perRequest => exact serves_pollDial hnumbers hmem
      | shared =>
        let queued : Client :=
          { c with turns := c.turns ++ [c.nextTurn], nextTurn := c.nextTurn + 1 }
        have hqueued : c.Resembles queued := ⟨rfl, rfl, fun _ => .refl⟩
        exact (serves_pollSlot (c := queued) hsound hnumbers hmem c.nextTurn).of_resembles hqueued
    | queued turn => exact serves_pollSlot hsound hnumbers hmem turn
    | dialling turn => exact serves_pollDial hnumbers hmem
    | running k call =>
      cases hconn : c.connections[k]? with
      | none =>
        simp only [hconn]
        exact haside
      | some conn =>
        simp only [hconn]
        have hcall := hawait id _ k call hmem rfl
        rw [← exchange_connectionOn, connectionOn_eq hconn] at hcall
        exact serves_absorb hnumbers hmem hconn
          (inquires_poll (connectionOn_eq hconn ▸ hsound k) hcall now)

theorem byUsers_dropRequest (c : Client) (id k : Nat) :
    ByUsers (c.connectionOn k) ((c.drop id).connectionOn k) := by
  rw [drop]
  cases hlookup : c.requests.lookup id with
  | none => exact .refl
  | some request =>
    obtain ⟨event, payload, progress⟩ := request
    cases progress with
    | fresh => exact byUsers_finish c id k
    | queued turn => exact byUsers_finish (c.leaveTurns (some turn)) id k
    | dialling turn =>
      exact ((resembles_leaveTurns c turn).users k).trans (byUsers_finish (c.leaveTurns turn) id k)
    | running j call =>
      exact (byUsers_onConnection (fun conn _ => byUsers_drop conn call) k).trans
        (byUsers_finish _ id k)

/-- A request that is dropped goes, and nothing comes. -/
theorem requests_drop (c : Client) (id : Nat) :
    (c.drop id).nextRequest = c.nextRequest ∧ (c.drop id).requests ⊆ c.requests := by
  rw [drop]
  cases c.requests.lookup id with
  | none => exact ⟨rfl, List.Subset.refl _⟩
  | some request =>
    obtain ⟨event, payload, progress⟩ := request
    cases progress with
    | dialling turn =>
      have hleft := resembles_leaveTurns c turn
      exact ⟨hleft.next, fun q hq => hleft.requests ▸ (List.mem_filter.mp hq).1⟩
    | fresh | queued | running => exact ⟨rfl, fun q hq => (List.mem_filter.mp hq).1⟩

/-! ### What a run answers -/

/-- What always holds of a client on whose connections peers have written so much: they relay it, and
every request waits for the tag it was begun with. -/
structure Sourced (tags : List String) (sent : Nat → List UInt8) (c : Client) : Prop where
  orderly : c.Orderly
  next : c.nextRequest = tags.length
  tags : ∀ p ∈ c.requests, tags[p.1]? = some p.2.event
  relays : ∀ k, Relays (sent k) (c.connectionOn k)
  await : c.Await

variable {tags : List String} {sent : Nat → List UInt8} {moves : List Move}

theorem sourced_ofConfig (config : Config) : Sourced [] (fun _ => []) (ofConfig config) where
  orderly := orderly_ofConfig config
  next := rfl
  tags p hp := by cases hp
  relays _ := relays_opened config.socketPath none
  await id r k call hmem := by cases hmem

theorem Sourced.serves (h : c.Sourced tags sent) (now : Nat) (dial : Dial) (id : Nat) :
    c.Serves id (c.poll now dial id) :=
  serves_poll (fun k => (h.relays k).sound) h.orderly.numbers h.await now dial id

/-- A request that was there before a move waits for its tag behind it. -/
theorem Sourced.awaits (h : c.Sourced tags sent) (m : Move) {call : Call}
    (hmem : (id, r) ∈ c.requests) (hrunning : r.progress = .running k call) :
    call.Awaits ((c.move m).exchangeOn k) r.event := by
  have hsound := (h.relays k).sound
  rw [exchange_connectionOn] at hsound
  exact (h.await id r k call hmem hrunning).leadsTo hsound ((continues_move h.orderly m).leadsTo k)

/-- Users concern none of the peers' bytes. -/
theorem Sourced.relays_byUsers (h : c.Sourced tags sent)
    (husers : ∀ k, ByUsers (c.connectionOn k) (c'.connectionOn k)) (k : Nat) :
    Relays (sent k ++ []) (c'.connectionOn k) := by
  rw [List.append_nil]
  exact (h.relays k).byUsers (husers k)

theorem Sourced.begin (h : c.Sourced tags sent) (event : String) (payload : Payload) :
    Sourced (tags ++ [event]) (fun k => sent k ++ []) (c.move (.begin event payload)) where
  orderly := h.orderly.move _
  next := by
    rw [List.length_append, ← h.next]
    rfl
  tags p hp := by
    rcases List.mem_append.mp hp with hold | hnew
    · have hlt : p.1 < tags.length := h.next ▸ h.orderly.below p hold
      rw [List.getElem?_append_left hlt]
      exact h.tags p hold
    · cases List.mem_singleton.mp hnew
      rw [h.next]
      exact List.getElem?_concat_length
  relays := h.relays_byUsers fun _ => .refl
  await id r k call hmem hrunning := by
    rcases List.mem_append.mp hmem with hold | hnew
    · exact h.await id r k call hold hrunning
    · cases List.mem_singleton.mp hnew
      cases hrunning

theorem Sourced.poll (h : c.Sourced tags sent) (id now : Nat) (dial : Dial) :
    Sourced (tags ++ []) (fun k => sent k ++ []) (c.move (.poll id now dial)) where
  orderly := h.orderly.move _
  next := by
    rw [List.append_nil, ← h.next]
    exact (h.serves now dial id).next
  tags p hp := by
    rw [List.append_nil]
    rcases (h.serves now dial id).requests p hp with hold | ⟨r, hmem, hid, hevent, -⟩
    · exact h.tags p hold
    · rw [hid, hevent]
      exact h.tags _ hmem
  relays := h.relays_byUsers (h.serves now dial id).users
  await id' r' k call hmem hrunning := by
    rcases (h.serves now dial id).requests _ hmem with hold | ⟨r, -, -, hevent, hawaits⟩
    · exact h.awaits (.poll id now dial) hold hrunning
    · have hevent : r'.event = r.event := hevent
      rw [hevent]
      exact hawaits k call hrunning

theorem Sourced.drop (h : c.Sourced tags sent) (id : Nat) :
    Sourced (tags ++ []) (fun k => sent k ++ []) (c.move (.drop id)) where
  orderly := h.orderly.move _
  next := by
    rw [List.append_nil, ← h.next]
    exact (requests_drop c id).1
  tags p hp := by
    rw [List.append_nil]
    exact h.tags p ((requests_drop c id).2 hp)
  relays := h.relays_byUsers (byUsers_dropRequest c id)
  await id' r k call hmem hrunning := h.awaits (.drop id) ((requests_drop c id).2 hmem) hrunning

theorem Sourced.incident (h : c.Sourced tags sent) (j : Nat) (what : Connection.Incident) :
    Sourced (tags ++ []) (fun k => sent k ++ (Move.incident j what).writes c k)
      (c.move (.incident j what)) where
  orderly := h.orderly.move _
  next := by
    rw [List.append_nil]
    exact h.next
  tags p hp := by
    rw [List.append_nil]
    exact h.tags p hp
  relays k := by
    rw [move, Move.writes]
    cases hconn : c.connections[j]? with
    | none =>
      have hnone : ¬(j = k ∧ k < c.connections.length) := by
        rintro ⟨rfl, hlt⟩
        exact Nat.not_le_of_lt hlt (List.getElem?_eq_none_iff.mp hconn)
      rw [onConnection_of_missing hconn, if_neg hnone, List.append_nil]
      exact h.relays k
    | some conn =>
      rw [connectionOn_onConnection hconn]
      by_cases hk : k = j
      · subst hk
        rw [if_pos rfl, if_pos ⟨rfl, (List.getElem?_eq_some_iff.mp hconn).1⟩]
        exact (connectionOn_eq hconn ▸ h.relays k).befall what
      · rw [if_neg hk, if_neg fun hboth => hk hboth.1.symm, List.append_nil]
        exact h.relays k
  await id r k call hmem hrunning := h.awaits (.incident j what) hmem hrunning

theorem Sourced.move (h : c.Sourced tags sent) (m : Move) :
    Sourced (tags ++ m.tag?.toList) (fun k => sent k ++ m.writes c k) (c.move m) := by
  cases m with
  | begin event payload => exact h.begin event payload
  | poll id now dial => exact h.poll id now dial
  | drop id => exact h.drop id
  | incident j what => exact h.incident j what

theorem tags_concat (moves : List Move) (m : Move) :
    Client.tags (moves ++ [m]) = Client.tags moves ++ m.tag?.toList := by
  rw [Client.tags, List.filterMap_append, Client.tags, List.filterMap_cons]
  cases m.tag? <;> rfl

theorem sourced_run (config : Config) (moves : List Move) :
    Sourced (Client.tags moves) (fun k => (ofConfig config).written k moves)
      ((ofConfig config).run moves) := by
  induction moves using List.reverseRecOn with
  | nil => exact sourced_ofConfig config
  | append_singleton moves m ih =>
    rw [run_concat, tags_concat]
    simpa only [written_concat] using ih.move m

/-- What a poll answers with data is told by the peer of some connection. -/
theorem Sourced.tells (h : c.Sourced tags sent)
    (hanswer : (c.poll now dial id).1 = .finished (.ok v)) :
    ∃ event k, tags[id]? = some event ∧ Frame.Tells (sent k) ⟨event, v⟩ := by
  obtain ⟨r, k, result, outcome, hmem, hinquires, hfinished, hv⟩ :=
    (h.serves now dial id).answer v hanswer
  exact ⟨r.event, k, h.tags _ hmem, (h.relays k).tells_answer hinquires hfinished hv⟩

theorem mem_answer? {m : Move} {reply : Reply} (h : (id, reply) ∈ m.answer? c) :
    ∃ now dial, m = .poll id now dial ∧ (c.poll now dial id).1 = .finished reply := by
  cases m with
  | poll n now dial =>
    rw [Move.answer?] at h
    split at h
    · next heq =>
      cases h
      exact ⟨now, dial, rfl, heq⟩
    · cases h
  | begin | drop | incident => cases h

/-- A request that ends with data ends with that of a message of its own tag, which the peer has
written on one of the connections by then. -/
theorem answer_told (h : (id, .ok v) ∈ (ofConfig config).answers moves) :
    ∃ event k, (Client.tags moves)[id]? = some event ∧
      Frame.Tells ((ofConfig config).written k moves) ⟨event, v⟩ := by
  induction moves using List.reverseRecOn with
  | nil => cases h
  | append_singleton moves m ih =>
    -- what was told by a moment has been told later
    have hlater : (∃ event k, (Client.tags moves)[id]? = some event ∧
        Frame.Tells ((ofConfig config).written k moves) ⟨event, v⟩) →
        ∃ event k, (Client.tags (moves ++ [m]))[id]? = some event ∧
          Frame.Tells ((ofConfig config).written k (moves ++ [m])) ⟨event, v⟩ := by
      rintro ⟨event, k, htag, htells⟩
      refine ⟨event, k, ?_, ?_⟩
      · rw [tags_concat, List.getElem?_append_left (List.getElem?_eq_some_iff.mp htag).1]
        exact htag
      · rw [written_concat]
        exact htells.mono (List.prefix_append _ _)
    rw [answers_concat] at h
    rcases List.mem_append.mp h with hbefore | hnow
    · exact hlater (ih hbefore)
    · obtain ⟨now, dial, rfl, hanswer⟩ := mem_answer? (Option.mem_toList.mp hnow)
      exact hlater ((sourced_run config moves).tells hanswer)

end EnvelopeClient.Client
