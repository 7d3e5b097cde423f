import EnvelopeClient.Proofs.Connection.Carrying
import EnvelopeClient.Proofs.Service.Posted
import EnvelopeClient.Proofs.Succession.System

/-!
# What the unfinished request has heard

`Succession.Inv` says that the answers on their way are those the reader has not taken, and that the
one unfinished request, once it is sent, has been given the first message of its tag among those
whose answers were taken since. Its message may still be on its way out, but no other is. Each event
keeps it.
-/

namespace EnvelopeClient

open Json EnvelopeClient.Frame EnvelopeClient.Exchange

namespace Succession

open Service (Event InTurn Along)

/-- The messages whose answers the reader has taken, from one on. -/
def heardSince (s : Succession) (messages : List Envelope) (since : Nat) : List Envelope :=
  (messages.take s.heard).drop since

/-- A request was sent behind the messages `before`, when the reader had taken `since` answers. -/
structure Waits (s : Succession) (x : Exchange) (b : Backlog) (messages : List Envelope) (id : Nat)
    (r : InFlight) (before : List Envelope) (e : Envelope) (since reply : Nat)
    (error : Option Nat) : Prop where
  running : ∃ limit deadline,
    r.progress = .running 0 (b.call before.length r.event reply error limit deadline)
  listens : x.Listens r.event reply error
  last : messages = before ++ [e]
  sent : s.service.sent[before.length]? = some id
  message : s.service.IsMessage id e
  late : (id, before.drop since) ∈ s.late
  since_le : since ≤ s.heard
  before_le : since ≤ before.length
  outcome : x.outcome? reply =
    ((s.heardSince messages since).find? (·.event = r.event)).map fun m => .ok m.data

/-- How far an unfinished request has come. -/
def Stands (s : Succession) (x : Exchange) (b : Backlog) (messages : List Envelope) (id : Nat)
    (r : InFlight) : Prop :=
  r.Idle ∧ id ∉ s.service.sent ∨
    ∃ before e since reply error, s.Waits x b messages id r before e since reply error

/-- Nothing has changed of what requests stand for. -/
structure Keeps (s s' : Succession) : Prop where
  sent : s'.service.sent = s.service.sent
  message : ∀ {id e}, s.service.IsMessage id e → s'.service.IsMessage id e
  late : s'.late = s.late
  heard : s'.heard = s.heard

section

variable {s s' : Succession} {x : Exchange} {b : Backlog} {messages before : List Envelope}
  {id since reply : Nat} {r : InFlight} {e : Envelope} {error : Option Nat}

/-- Its waiters are those that stand for it. -/
theorem Waits.waitersOn (h : s.Waits x b messages id r before e since reply error) :
    r.waitersOn 0 = reply :: error.toList := by
  obtain ⟨limit, deadline, hrunning⟩ := h.running
  rw [InFlight.waitersOn_self hrunning, Backlog.waiters_call]

/-- What happens apart from what a request stands for leaves it there. -/
theorem Waits.mono (h : s.Waits x b messages id r before e since reply error)
    (hsame : s.Keeps s') : s'.Waits x b messages id r before e since reply error :=
  { h with
    sent := hsame.sent ▸ h.sent
    message := hsame.message h.message
    late := hsame.late ▸ h.late
    since_le := hsame.heard ▸ h.since_le
    outcome := by
      rw [heardSince, hsame.heard]
      exact h.outcome }

theorem Stands.mono (h : s.Stands x b messages id r) (hsame : s.Keeps s') :
    s'.Stands x b messages id r := by
  rcases h with ⟨hidle, hunsent⟩ | ⟨before, e, since, reply, error, h⟩
  · exact .inl ⟨hidle, hsame.sent ▸ hunsent⟩
  · exact .inr ⟨before, e, since, reply, error, h.mono hsame⟩

theorem Stands.unsent_of_idle (h : s.Stands x b messages id r) (hidle : r.Idle) :
    id ∉ s.service.sent := by
  rcases h with ⟨-, hunsent⟩ | ⟨before, e, since, reply, error, h⟩
  · exact hunsent
  · obtain ⟨limit, deadline, hrunning⟩ := h.running
    exact absurd hrunning (hidle _ _)

/-- The reader takes one more answer. -/
theorem Stands.hear (h : s.Stands x b messages id r) (haccounts : Accounts (r.waitersOn 0) x)
    (he : messages[s.heard]? = some e) :
    Stands { s with heard := s.heard + 1 } (x.deliver e).2 b messages id r := by
  rcases h with ⟨hidle, hunsent⟩ | ⟨before, own, since, reply, error, h⟩
  · exact .inl ⟨hidle, hunsent⟩
  · rw [h.waitersOn] at haccounts
    refine .inr ⟨before, own, since, reply, error,
      { h with
        listens := h.listens.deliver haccounts.sound e
        since_le := Nat.le_succ_of_le h.since_le
        outcome := ?_ }⟩
    have hlength : (messages.take s.heard).length = s.heard :=
      List.length_take_of_le (Nat.le_of_lt (List.getElem?_eq_some_iff.mp he).1)
    have hheard : heardSince { s with heard := s.heard + 1 } messages since =
        s.heardSince messages since ++ [e] := by
      rw [heardSince, heardSince, List.take_add_one, he,
        List.drop_append_of_le_length (hlength.symm ▸ h.since_le)]
      rfl
    rw [h.listens.outcome?_deliver haccounts, h.outcome, hheard, List.find?_append]
    cases (s.heardSince messages since).find? (·.event = r.event) with
    | some first => rfl
    | none =>
      by_cases htag : e.event = r.event
      · simp [htag]
      · simp [htag]

end

/-- What holds behind any events. -/
structure Inv (s : Succession) (conn? : Option Connection) (messages : List Envelope)
    (b : Backlog) : Prop extends s.service.Posted conn? messages where
  keys : s.late.map Prod.fst = s.service.sent
  heard : s.heard ≤ s.service.responses.length
  mirrors : ∀ {n : Nat} {r : Response} {e : Envelope}, s.service.responses[n]? = some r →
    messages[n]? = some e → r.Mirrors e
  /-- Whatever room a connection has that is to be opened. -/
  carries : ∀ capacity, (s.service.client.link capacity conn?).Carries messages s.service.read b
    ((s.service.responses.drop s.heard).map Response.piece) s.service.outgoing
  /-- Nothing is left of the messages of those who have ended. -/
  left : ∀ n, (∀ p ∈ s.service.client.requests, s.service.sent[n]? ≠ some p.1) → b.rest? n = none
  alone : s.service.client.requests.length ≤ 1
  asked : ∀ p ∈ s.service.client.requests,
    s.service.asked[p.1]? = some (p.2.event, p.2.payload)
  requests : ∀ p ∈ s.service.client.requests,
    s.Stands (s.service.client.link none conn?).exchange b messages p.1 p.2
  replies : ∀ id v, (id, .ok v) ∈ s.service.replies → s.Returns id v

theorem inv_start {config : Config} (hmode : config.mode = .shared) :
    Inv (start config) none [] .empty where
  toPosted := Service.posted_start hmode
  keys := rfl
  heard := Nat.le_refl _
  mirrors hr := by cases hr
  carries capacity := Connection.carries_opened _ capacity
  left n _ := Backlog.rest?_of_nil rfl
  alone := Nat.zero_le _
  asked p hp := by cases hp
  requests p hp := by cases hp
  replies id v hp := by cases hp

variable {s : Succession} {conn? conn?' : Option Connection} {messages before : List Envelope}
  {b b' : Backlog} {id since now : Nat} {dial : Dial} {r : InFlight} {c c' : Connection}
  {client : Client} {reply : Reply} {e : Envelope} {waiter : Nat} {error : Option Nat}

/-! ### What the invariant says of one request -/

section

variable (h : Inv s conn? messages b)

include h

/-- The only request there is. -/
theorem Inv.eq_of_mem (hmem : (id, r) ∈ s.service.client.requests) :
    s.service.client.requests = [(id, r)] := by
  obtain ⟨p, hp⟩ := List.length_eq_one_iff.mp
    (Nat.le_antisymm h.alone (List.length_pos_of_mem hmem))
  rw [hp] at hmem ⊢
  rw [List.mem_singleton.mp hmem]

theorem Inv.requests_setProgress (hmem : (id, r) ∈ s.service.client.requests)
    (progress : Progress) :
    (s.service.client.setProgress id progress).requests = [(id, { r with progress })] := by
  rw [Client.requests_setProgress, h.eq_of_mem hmem]
  simp

/-- Without it nobody is left. -/
theorem Inv.filter_eq_nil (hmem : (id, r) ∈ s.service.client.requests) :
    s.service.client.requests.filter (·.1 ≠ id) = [] := by
  rw [h.eq_of_mem hmem]
  simp

/-- The messages that were late when the next request is sent. -/
theorem Inv.late_eq :
    (s.service.sent.drop s.heard).filterMap s.service.message? = messages.drop s.heard := by
  have hdrop : List.Forall₂ s.service.IsMessage (s.service.sent.drop s.heard)
      (messages.drop s.heard) := List.forall₂_drop _ h.written
  generalize s.service.sent.drop s.heard = ids at hdrop
  generalize messages.drop s.heard = late at hdrop
  induction hdrop with
  | nil => rfl
  | cons hmessage _ ih => rw [List.filterMap_cons, Service.message?_eq_some hmessage, ih]

/-- A request that was not sent has left nothing to be written, and nobody else is there. -/
theorem Inv.rest?_of_unsent (hmem : (id, r) ∈ s.service.client.requests)
    (hunsent : id ∉ s.service.sent) (n : Nat) : b.rest? n = none := by
  refine h.left n ?_
  intro p hp hn
  rw [h.eq_of_mem hmem] at hp
  obtain rfl := List.mem_singleton.mp hp
  exact hunsent (List.mem_of_getElem? hn)

/-- Without a connection nothing was sent, and so nothing is to be written. -/
theorem Inv.outgoing_of_none (hconn : conn? = none) : s.service.outgoing = [] := by
  have hbrings := (h.carries none).toBrings
  rw [h.responses_of_none hconn, List.drop_nil] at hbrings
  exact hbrings.outgoing_eq_nil

theorem Inv.carries_of_some (hconn : conn? = some c) :
    c.Carries messages s.service.read b
      ((s.service.responses.drop s.heard).map Response.piece) s.service.outgoing := by
  subst hconn
  exact h.carries none

/-! ### The peer and the reader -/

/-- Something happens to the connection, if there is one. The reader may have taken an answer. -/
theorem Inv.befall (what : Connection.Incident) {heard : Nat} {read outgoing : List UInt8}
    (hheard : heard ≤ s.service.responses.length)
    (hcarries : ∀ capacity, (s.service.client.link capacity (conn?.map (·.befall what))).Carries
      messages read b ((s.service.responses.drop heard).map Response.piece) outgoing)
    (hrequests : ∀ p ∈ s.service.client.requests,
      Stands { s with heard } (s.service.client.link none (conn?.map (·.befall what))).exchange b
        messages p.1 p.2) :
    Inv { s with
        service := { s.service with
          client := s.service.client.onConnection 0 (·.befall what), read, outgoing }
        heard } (conn?.map (·.befall what)) messages b where
  toPosted := by
    refine h.toPosted.befall ?_
    intro c hc
    have hopen := (hcarries none).calm.isOpen
    rw [hc] at hopen
    exact hopen
  keys := h.keys
  heard := hheard
  mirrors := h.mirrors
  carries := hcarries
  left := h.left
  alone := h.alone
  asked := h.asked
  requests p hp := (hrequests p hp).mono ⟨rfl, fun he => he, rfl, rfl⟩
  replies := h.replies

theorem Inv.peerReads (count : Nat) :
    ∃ conn?', Inv (s.step (.peerReads count)) conn?' messages b := by
  have hlink : ∀ capacity,
      s.service.client.link capacity (conn?.map (·.befall (.peerReads count))) =
        (s.service.client.link capacity conn?).peerRead count := by
    intro capacity
    cases conn? with
    | none => simp [Client.link, Connection.peerRead, Connection.opened, Outbound.empty]
    | some c => rfl
  rw [step_of_silent rfl rfl]
  refine ⟨_, h.befall _ h.heard ?_ ?_⟩
  · intro capacity
    rw [hlink, h.unread_eq capacity]
    exact (h.carries capacity).peerRead count
  · rw [hlink]
    exact h.requests

theorem Inv.peerWrites (count : Nat) :
    ∃ conn?', Inv (s.step (.peerWrites count)) conn?' messages b := by
  have hlink : ∀ capacity, s.service.client.link capacity
      (conn?.map (·.befall (.peerWrites (s.service.outgoing.take count)))) =
        (s.service.client.link capacity conn?).peerWrite (s.service.outgoing.take count) := by
    intro capacity
    cases hconn : conn? with
    | none =>
      rw [h.outgoing_of_none hconn, List.take_nil]
      rfl
    | some c => rfl
  rw [step_of_silent rfl rfl]
  refine ⟨_, h.befall _ h.heard ?_ ?_⟩
  · intro capacity
    rw [hlink]
    exact (h.carries capacity).peerWrite count
  · rw [hlink]
    exact h.requests

theorem Inv.respond {response : Response} (hturn : s.service.InTurn (.respond response)) :
    Inv (s.step (.respond response)) conn? messages b := by
  obtain ⟨id, e, hid, hmessage, hmirrors⟩ := hturn
  obtain ⟨e', he', hmessage'⟩ := h.message hid
  obtain rfl : e = e' := Option.some.inj
    ((Service.message?_eq_some hmessage).symm.trans (Service.message?_eq_some hmessage'))
  rw [step_of_silent rfl rfl]
  exact { h with
    toPosted := h.toPosted.respond (List.getElem?_eq_some_iff.mp hid).1
    heard := by
      show s.heard ≤ (s.service.responses ++ [response]).length
      rw [List.length_append]
      exact Nat.le_add_right_of_le h.heard
    mirrors := by
      intro n r m hr hm
      rcases getElem?_concat_cases hr with ⟨rfl, rfl⟩ | ⟨-, hr⟩
      · obtain rfl := Option.some.inj (he'.symm.trans hm)
        exact hmirrors
      · exact h.mirrors hr hm
    carries := by
      intro capacity
      show (s.service.client.link capacity conn?).Carries messages _ b
        (((s.service.responses ++ [response]).drop s.heard).map Response.piece) _
      rw [List.drop_append_of_le_length h.heard, List.map_append]
      exact (h.carries capacity).more response.piece
    requests := fun p hp => (h.requests p hp).mono ⟨rfl, fun he => he, rfl, rfl⟩ }

/-- Whoever is unfinished has all the waiters there are. -/
theorem Inv.accounts_of_mem (hconn : conn? = some c)
    (hmem : (id, r) ∈ s.service.client.requests) : Accounts (r.waitersOn 0) c.exchange := by
  have haccounts := h.accounts hconn
  rwa [h.eq_of_mem hmem, Client.waitersOf_cons, Client.waitersOf, List.flatMap_nil,
    List.append_nil] at haccounts

/-- The answer that is taken next is that to the next message. -/
theorem Inv.next {response : Response} {left : List Response}
    (hback : s.service.responses.drop s.heard = response :: left) :
    s.heard < s.service.responses.length ∧ s.service.responses.drop (s.heard + 1) = left ∧
      ∃ e, messages[s.heard]? = some e ∧ response.Mirrors e := by
  have hresponse : s.service.responses[s.heard]? = some response := by
    rw [← List.head?_drop, hback, List.head?_cons]
  have hlt := (List.getElem?_eq_some_iff.mp hresponse).1
  have he := List.getElem?_eq_getElem (h.lt_of_answered hresponse)
  refine ⟨hlt, ?_, _, he, h.mirrors hresponse he⟩
  rw [← List.tail_drop, hback, List.tail_cons]

theorem Inv.reader : ∃ conn?', Inv (s.step .reader) conn?' messages b := by
  rw [step_of_unsent rfl]
  cases hconn : conn? with
  | none =>
    subst hconn
    have hhears : s.service.hears .reader = false := by
      rw [Service.hears, h.lone.connections]
      rfl
    rw [hhears]
    exact ⟨_, h.befall .reader h.heard h.carries h.requests⟩
  | some c =>
    subst hconn
    have hhears : s.service.hears .reader = c.reading?.any Reading.isFrame := by
      rw [Service.hears, h.lone.connections]
      rfl
    rw [hhears]
    cases hstep : c.readerStep with
    | none =>
      have hsame : c.befall .reader = c := by rw [Connection.befall, hstep]; rfl
      rw [Connection.reading?_of_rest hstep]
      refine ⟨_, h.befall .reader h.heard ?_ ?_⟩
      · rw [Option.map_some, hsame]
        exact h.carries
      · rw [Option.map_some, hsame]
        exact h.requests
    | some c' =>
      have hbefall : c.befall .reader = c' := by rw [Connection.befall, hstep]; rfl
      have hshort : ∀ response ∈ (s.service.responses.drop s.heard).head?,
          response.piece.bytes.length ≤ defaultLimit := by
        intro response hresponse
        obtain ⟨left, hback⟩ := List.head?_eq_some_iff.mp hresponse
        obtain ⟨-, -, e, -, hmirrors⟩ := h.next hback
        exact hmirrors.short
      rcases (h.carries_of_some rfl).readerStep (Response.short_head hshort) hstep with
        ⟨hcarries, hexchange, hnot⟩ | ⟨p, pieces, hpieces, hcarries, hexchange, hframe⟩
      · obtain ⟨reading, hreading, -⟩ := Connection.reads_readerStep hstep
        have hnone : c.reading?.any Reading.isFrame = false := by
          rw [hreading]
          cases reading with
          | frame f => exact absurd hreading (hnot f)
          | stop | bytes _ | ended | failed _ | rest | finish => rfl
        rw [hnone]
        refine ⟨_, h.befall .reader h.heard ?_ ?_⟩
        · rw [Option.map_some, hbefall]
          exact fun _ => hcarries
        · rw [Option.map_some, hbefall]
          show ∀ p ∈ s.service.client.requests, s.Stands c'.exchange b messages p.1 p.2
          rw [hexchange]
          exact h.requests
      · obtain ⟨response, left, hback, rfl, rfl⟩ := List.map_eq_cons_iff.mp hpieces
        obtain ⟨hlt, hleft, e, he, hmirrors⟩ := h.next hback
        have hgiven : c'.exchange = (c.exchange.deliver e).2 := by
          rw [hexchange, hmirrors.frame]
          rfl
        have htaken : c.reading?.any Reading.isFrame = true := by
          rw [show c.reading? = _ from hframe]
          rfl
        rw [htaken, if_pos rfl]
        refine ⟨_, h.befall .reader hlt ?_ ?_⟩
        · rw [Option.map_some, hbefall, hleft]
          exact fun _ => hcarries
        · intro p hp
          rw [Option.map_some, hbefall]
          show Stands _ c'.exchange b messages p.1 p.2
          rw [hgiven]
          exact (h.requests p hp).hear (h.accounts_of_mem rfl hp) he

/-! ### Requests -/

theorem Inv.begin {event : String} {payload : Payload}
    (hturn : s.service.InTurn (.begin event payload)) :
    Inv (s.step (.begin event payload)) conn? messages b := by
  have hnobody : s.service.client.requests = [] := hturn
  have hrequests : (s.service.client.begin event payload).2.requests =
      [(s.service.client.nextRequest, ⟨event, payload, .fresh⟩)] := by
    rw [Client.begin, hnobody]
    rfl
  rw [step_of_silent rfl rfl]
  exact { h with
    toPosted := h.toPosted.begin event payload
    left := by
      intro n _
      refine h.left n ?_
      intro p hp
      rw [hnobody] at hp
      cases hp
    alone := by
      show (s.service.client.begin event payload).2.requests.length ≤ 1
      rw [hrequests]
      exact Nat.le_refl _
    asked := by
      intro p hp
      obtain rfl := List.mem_singleton.mp (hrequests ▸ hp)
      show (s.service.asked ++ [(event, payload)])[s.service.client.nextRequest]? = _
      rw [h.number, List.getElem?_concat_length]
    requests := by
      intro p hp
      obtain rfl := List.mem_singleton.mp (hrequests ▸ hp)
      exact .inl ⟨InFlight.idle_fresh event payload, h.nextRequest_not_sent⟩
    replies := by
      intro id v hreply
      obtain ⟨late, e, first, hlate, he, hfirst⟩ := h.replies id v hreply
      exact ⟨late, e, first, hlate, he.begin event payload, hfirst⟩ }

/-- A poll leaves a request waiting for the slot or for the socket. -/
theorem Inv.waits (hmem : (id, r) ∈ s.service.client.requests) (hidle : r.Idle)
    (hwaits : s.service.client.Waits id (s.service.client.poll now dial id)) :
    Inv (s.step (.poll id now dial)) conn? messages b := by
  obtain ⟨turns, nextTurn, progress, hnot, heq, hshares⟩ := hwaits
  have hunsent := (h.requests _ hmem).unsent_of_idle hidle
  have hrequests := h.requests_setProgress hmem progress
  have hstep := h.step_waits hmem hidle hnot heq
  rw [step_of_silent rfl (by rw [hstep]), hstep]
  exact { h with
    toPosted := h.toPosted.waits heq hshares
    left := fun n _ => h.rest?_of_unsent hmem hunsent n
    alone := by
      show (s.service.client.setProgress id progress).requests.length ≤ 1
      rw [hrequests]
      exact Nat.le_refl _
    asked := by
      intro p hp
      obtain rfl := List.mem_singleton.mp (hrequests ▸ hp)
      exact h.asked (id, r) hmem
    requests := by
      intro p hp
      obtain rfl := List.mem_singleton.mp (hrequests ▸ hp)
      exact .inl ⟨hnot, hunsent⟩
    replies := h.replies }

/-- A poll ends the unfinished request, of whose message nothing is left. -/
theorem Inv.ends (hmem : (id, r) ∈ s.service.client.requests)
    (hpoll : s.service.client.poll now dial id = (.finished reply, client))
    (hsame : client.requests = s.service.client.requests.filter (·.1 ≠ id) ∧
      client.config = s.service.client.config ∧
      client.nextRequest = s.service.client.nextRequest)
    (hshares : client.Shares) (hlone : client.Lone conn?')
    (hlinked : conn?' = none → messages = [])
    (hcarries : ∀ capacity, (client.link capacity conn?').Carries messages s.service.read b'
      ((s.service.responses.drop s.heard).map Response.piece) s.service.outgoing)
    (hleft : ∀ n, b'.rest? n = none) (hreply : ∀ v, reply = .ok v → s.Returns id v) :
    Inv (s.step (.poll id now dial)) conn?' messages b' := by
  obtain ⟨hfilter, hconfig, hnumber⟩ := hsame
  have hrequests := hfilter.trans (h.filter_eq_nil hmem)
  have hstep := Service.step_poll_finished hpoll (Client.isUnderWay_of_filter hfilter)
  rw [step_of_silent rfl (by rw [hstep]), hstep]
  exact { h with
    toPosted := h.toPosted.ends hpoll hconfig hnumber hshares hlone hlinked
    carries := hcarries
    left := fun n _ => hleft n
    alone := by
      show client.requests.length ≤ 1
      rw [hrequests]
      exact Nat.zero_le _
    asked := by
      intro p hp
      rw [hrequests] at hp
      cases hp
    requests := by
      intro p hp
      rw [hrequests] at hp
      cases hp
    replies := by
      intro id' v hv
      rcases List.mem_append.mp hv with hv | hv
      · exact h.replies id' v hv
      · cases List.mem_singleton.mp hv
        exact hreply v rfl }

/-- A poll sends the unfinished request. -/
theorem Inv.sends (hmem : (id, r) ∈ s.service.client.requests) (hidle : r.Idle)
    {limit : Option Nat} {deadline : Option Deadline} {turns : List Nat} {nextTurn : Nat}
    {data : Value} (hpayload : r.payload.toValue = .ok data)
    (hcarries : c.Carries (messages ++ [⟨r.event, data⟩]) s.service.read b'
      ((s.service.responses.drop s.heard).map Response.piece) s.service.outgoing)
    (hothers : ∀ m < messages.length, b'.rest? m = b.rest? m)
    (hlistens : c.exchange.Listens r.event waiter error)
    (hnone : c.exchange.outcome? waiter = none)
    (hclient : client = { s.service.client with
      turns, nextTurn, connections := [c], stored := some 0 }.setProgress id
        (.running 0 (b'.call messages.length r.event waiter error limit deadline)))
    (hpoll : s.service.client.poll now dial id = (.pending, client)) (hshares : client.Shares) :
    Inv (s.step (.poll id now dial)) (some c) (messages ++ [⟨r.event, data⟩]) b' := by
  have hasked := h.asked _ hmem
  have hunsent := (h.requests _ hmem).unsent_of_idle hidle
  have hrequests : client.requests = [(id, { r with
      progress := .running 0 (b'.call messages.length r.event waiter error limit deadline) })] := by
    rw [hclient]
    exact h.requests_setProgress hmem _
  have hstep := h.step_sends hmem hidle hclient hpoll
  have hsent : (s.service.step (.poll id now dial)).sent = s.service.sent ++ [id] := by rw [hstep]
  have hlast : (s.service.sent ++ [id])[messages.length]? = some id := by
    rw [h.length, List.getElem?_concat_length]
  rw [step_of_sent rfl hsent, hstep, h.late_eq]
  exact { h with
    toPosted := h.toPosted.sends ⟨r.payload, hasked, hpayload⟩ hunsent hcarries.calm.isOpen hclient
      hpoll hshares
    keys := by
      rw [List.map_append, h.keys]
      rfl
    mirrors := by
      intro n response e hresponse he
      -- whoever has an answer was sent before
      rw [List.getElem?_append_left (h.lt_of_answered hresponse)] at he
      exact h.mirrors hresponse he
    carries := fun _ => hcarries
    left := by
      intro n hn
      rcases Nat.lt_trichotomy n messages.length with hlt | rfl | hgt
      · rw [hothers n hlt]
        exact h.rest?_of_unsent hmem hunsent n
      · exact absurd hlast (hn _ (hrequests ▸ List.mem_singleton_self _))
      · refine Backlog.rest?_of_length_le ?_
        rw [hcarries.writes.length, List.length_append]
        exact hgt
    alone := by
      rw [hrequests]
      exact Nat.le_refl _
    asked := by
      intro p hp
      obtain rfl := List.mem_singleton.mp (hrequests ▸ hp)
      exact hasked
    requests := by
      intro p hp
      obtain rfl := List.mem_singleton.mp (hrequests ▸ hp)
      refine .inr ⟨messages, ⟨r.event, data⟩, s.heard, waiter, error, ⟨⟨limit, deadline, rfl⟩,
        hlistens, rfl, hlast, ⟨r.payload, hasked, hpayload⟩,
        List.mem_append_right _ (List.mem_singleton_self _), Nat.le_refl _,
        Nat.le_trans h.heard (h.length ▸ h.answered), ?_⟩⟩
      -- nothing has been taken since
      have hsince : s.heardSince (messages ++ [⟨r.event, data⟩]) s.heard = [] :=
        List.drop_eq_nil_of_le (List.length_take_le _ _)
      show c.exchange.outcome? waiter =
        ((s.heardSince (messages ++ [⟨r.event, data⟩]) s.heard).find? _).map _
      rw [hsince]
      exact hnone
    replies := by
      intro id' v hv
      obtain ⟨late, e, first, hlate, he, hfirst⟩ := h.replies id' v hv
      exact ⟨late, e, first, List.mem_append_left _ hlate, he, hfirst⟩ }

/-- A poll begins the unfinished request on a connection. -/
theorem Inv.enters (hmem : (id, r) ∈ s.service.client.requests) (hidle : r.Idle)
    {capacity : Option Nat}
    (henters : s.service.client.Enters now id r (s.service.client.link capacity conn?)
      (s.service.client.poll now dial id)) :
    ∃ conn?' messages' b', Inv (s.step (.poll id now dial)) conn?' messages' b' := by
  have hcarries := h.carries capacity
  obtain ⟨waiter, error, x, henlists⟩ :=
    exists_enlists (h.sound capacity) hcarries.calm.isOpen r.event
  obtain ⟨turns, nextTurn, hpoll, hshares⟩ := henters
  rw [hpoll] at hshares
  cases hpayload : r.payload.toValue with
  | error fault =>
    rw [Connection.ask_of_unsendable henlists hpayload,
      Client.absorb_of_stored rfl rfl] at hpoll hshares
    obtain ⟨y, heq, hstatus⟩ := Connection.dropWaiters_eq
      { s.service.client.link capacity conn? with exchange := x } error waiter
    rw [heq] at hpoll hshares
    have hopen : y.status = .open := hstatus.trans henlists.isOpen
    have hunsent := (h.requests _ hmem).unsent_of_idle hidle
    refine ⟨some { s.service.client.link capacity conn? with exchange := y }, messages, b,
      h.ends hmem hpoll ⟨rfl, rfl, rfl⟩ hshares ⟨rfl, rfl, ?_⟩ ?_ (fun _ => hcarries.aside hopen)
        (h.rest?_of_unsent hmem hunsent) ?_⟩
    · rintro conn ⟨⟩
      exact hopen
    · intro hnone
      cases hnone
    · intro v hv
      cases hv
  | ok data =>
    obtain ⟨c, b', hask, hcarries, rfl, hothers⟩ := hcarries.ask (e := ⟨r.event, data⟩) henlists
      hpayload s.service.client.config.timeouts.request? Timeouts.request?_pos now
    rw [hask, Client.absorb_of_stored rfl rfl] at hpoll hshares
    exact ⟨_, _, _, h.sends hmem hidle hpayload hcarries hothers henlists.listens
      (henlists.outcome? waiter List.mem_cons_self) rfl hpoll hshares⟩

/-- The message of a request has its tag. -/
theorem Inv.event_of_message (hmem : (id, r) ∈ s.service.client.requests)
    (hmessage : s.service.IsMessage id e) : e.event = r.event := by
  obtain ⟨payload, hasked, -⟩ := hmessage
  exact congrArg Prod.fst (Option.some.inj (hasked.symm.trans (h.asked _ hmem)))

section

variable (hwaits : s.Waits (s.service.client.link none conn?).exchange b messages id r before e
  since waiter error)

include hwaits

/-- Whoever was sent was so on a connection. -/
theorem Inv.connection_of_waits : ∃ c, conn? = some c := by
  refine h.exists_connection ?_
  rw [hwaits.last]
  exact List.concat_ne_nil e before

variable (hmem : (id, r) ∈ s.service.client.requests)

include hmem

/-- Nobody else is there of whose message something is left. -/
theorem Inv.rest?_of_other {n : Nat} (hn : n ≠ before.length) : b.rest? n = none := by
  refine h.left n ?_
  intro p hp hsent
  rw [h.eq_of_mem hmem] at hp
  obtain rfl := List.mem_singleton.mp hp
  exact hn (h.sent_inj hsent hwaits.sent)

/-- If it was given data, these are those of the first message of its tag. -/
theorem Inv.returns_of_given {v : Value}
    (hgiven : (s.service.client.link none conn?).exchange.outcome? waiter = some (.ok v)) :
    s.Returns id v := by
  obtain ⟨first, hfind, hdata⟩ := Option.map_eq_some_iff.mp (hwaits.outcome.symm.trans hgiven)
  have htag := h.event_of_message hmem hwaits.message
  have hprefix : s.heardSince messages since <+: before.drop since ++ [e] := by
    rw [heardSince, List.drop_take, hwaits.last, List.drop_append_of_le_length hwaits.before_le]
    exact List.take_prefix _ _
  refine ⟨_, e, first, hwaits.late, hwaits.message, ?_, ?_⟩
  · rw [htag]
    exact hprefix.find?_eq_some hfind
  · cases hdata
    rfl

/-- A poll leaves a request under way, and may have written a part of its message. -/
theorem Inv.goesOn (hconn : conn? = some c)
    (hcarries : c'.Carries messages s.service.read b'
      ((s.service.responses.drop s.heard).map Response.piece) s.service.outgoing)
    (hexchange : c'.exchange = c.exchange)
    (hforwards : c.Forwards c' messages s.service.read b b' before.length) {call : Call}
    (hrunning : r.progress = .running 0 call) {limit : Option Nat} {deadline : Option Deadline}
    (hcall : call.poll c now =
      (.pending (b'.call before.length r.event waiter error limit deadline), c')) :
    Inv (s.step (.poll id now dial)) (some c') messages b' := by
  have hpoll := h.poll_pending hconn hmem hrunning hcall dial
  have hrequests := h.requests_setProgress hmem
    (.running 0 (b'.call before.length r.event waiter error limit deadline))
  have hstep := h.step_goesOn hmem hrunning hpoll
  rw [step_of_silent rfl (by rw [hstep]), hstep]
  exact { h with
    toPosted := h.toPosted.goesOn hconn hmem hrunning hcall hcarries.calm.isOpen dial
    carries := fun _ => hcarries
    left := by
      intro n hn
      refine hforwards.rest?_eq_none (h.left n ?_)
      intro p hp
      rw [h.eq_of_mem hmem] at hp
      obtain rfl := List.mem_singleton.mp hp
      exact hn (id, { r with
        progress := .running 0 (b'.call before.length r.event waiter error limit deadline) })
          (hrequests ▸ List.mem_singleton_self _)
    alone := by
      show (s.service.client.setProgress id _).requests.length ≤ 1
      rw [hrequests]
      exact Nat.le_refl _
    asked := by
      intro p hp
      obtain rfl := List.mem_singleton.mp (hrequests ▸ hp)
      exact h.asked (id, r) hmem
    requests := by
      intro p hp
      obtain rfl := List.mem_singleton.mp (hrequests ▸ hp)
      subst hconn
      refine .inr ⟨before, e, since, waiter, error, ?_⟩
      have hnow : s.Waits c'.exchange b' messages id { r with
          progress := .running 0 (b'.call before.length r.event waiter error limit deadline) }
            before e since waiter error := by
        rw [hexchange]
        exact { hwaits with running := ⟨limit, deadline, rfl⟩ }
      exact hnow.mono ⟨rfl, fun he => he, rfl, rfl⟩
    replies := h.replies }

/-- A poll of a request that was sent. If its message is not written, as much of it is as there is
room for. -/
theorem Inv.polls (now : Nat) (dial : Dial) :
    ∃ c conn' b', conn? = some c ∧ Inv (s.step (.poll id now dial)) (some conn') messages b' ∧
      ∀ left, before.length = b.written → b.rest? before.length = some left →
        conn'.outbound.unread = c.outbound.unread ++ left.take (c.outbound.room left.length) := by
  obtain ⟨c, rfl⟩ := h.connection_of_waits hwaits
  obtain ⟨limit, deadline, hrunning⟩ := hwaits.running
  obtain ⟨b', c', deadline', hforwards, hcarries, hexchange, -, hcall⟩ :=
    (h.carries_of_some rfl).poll before.length r.event waiter error limit deadline now
  cases hrest : b'.rest? before.length with
  | some left =>
    rw [hrest] at hcall
    have hagain : (b.call before.length r.event waiter error limit deadline).poll c now =
        (.pending (b'.call before.length r.event waiter error limit none), c') := by
      rw [hcall, Backlog.call_of_some hrest]
    exact ⟨c, c', b', rfl, h.goesOn hwaits hmem rfl hcarries hexchange hforwards hrunning hagain,
      hforwards.fills⟩
  | none =>
    rw [hrest] at hcall
    rcases Connection.pollHear_cases hcarries.calm.isGone now r.event waiter error deadline' with
      hhears | ⟨answer, hends, hanswer⟩
    · have hagain : (b.call before.length r.event waiter error limit deadline).poll c now =
          (.pending (b'.call before.length r.event waiter error limit deadline'), c') := by
        rw [Backlog.call_of_none hrest]
        exact hcall.trans hhears
      exact ⟨c, c', b', rfl, h.goesOn hwaits hmem rfl hcarries hexchange hforwards hrunning hagain,
        hforwards.fills⟩
    · obtain ⟨y, heq, hstatus⟩ := Connection.dropWaiters_eq c' error waiter
      rw [heq] at hends
      have hpoll := h.poll_finished rfl hmem hrunning (hcall.trans hends) dial
      have hopen : y.status = .open := hstatus.trans hcarries.calm.isOpen
      refine ⟨c, { c' with exchange := y }, b', rfl, h.ends hmem hpoll ⟨rfl, rfl, rfl⟩ ?_
        ⟨rfl, h.lone.stored, ?_⟩ ?_ (fun _ => hcarries.aside hopen) ?_ ?_, hforwards.fills⟩
      · exact h.shares.finish h.orderly.numbers hmem hrunning h.lone.connections _
      · rintro conn ⟨⟩
        exact hopen
      · intro hnone
        cases hnone
      · -- its own message is written, and nobody else is there
        intro n
        by_cases hn : n = before.length
        · rw [hn, hrest]
        · exact hforwards.rest?_eq_none (h.rest?_of_other hwaits hmem hn)
      · rintro v rfl
        have hgiven := hanswer v rfl
        rw [hexchange] at hgiven
        exact h.returns_of_given hwaits hmem hgiven

end

/-- The request whose message is first in line goes on writing it when it is polled. -/
theorem Inv.first_writes {left : List UInt8} (hrest : b.rest? b.written = some left) :
    ∃ id ∈ s.service.sent, ∀ now dial, ∀ c ∈ s.service.client.connections,
      (s.service.step (.poll id now dial)).client.unread =
        s.service.client.unread ++ left.take (c.outbound.room left.length) := by
  obtain ⟨⟨id, r⟩, hmem, hsent⟩ : ∃ p ∈ s.service.client.requests,
      s.service.sent[b.written]? = some p.1 := by
    by_contra hnone
    rw [h.left b.written fun p hp hsent => hnone ⟨p, hp, hsent⟩] at hrest
    cases hrest
  refine ⟨id, List.mem_of_getElem? hsent, ?_⟩
  intro now dial c hc
  rcases h.requests _ hmem with ⟨-, hunsent⟩ | ⟨before, e, since, waiter, error, hwaits⟩
  · exact absurd (List.mem_of_getElem? hsent) hunsent
  · have hfirst : before.length = b.written := h.sent_inj hwaits.sent hsent
    obtain ⟨c', conn', b', hconn, hinv, hfills⟩ := h.polls hwaits hmem now dial
    rw [h.lone.connections, hconn] at hc
    obtain rfl := List.mem_singleton.mp hc
    rw [h.unread_eq none, hconn]
    exact (hinv.unread_eq none).trans (hfills left hfirst (hfirst ▸ hrest))

theorem Inv.poll (id now : Nat) (dial : Dial) :
    ∃ conn?' messages' b', Inv (s.step (.poll id now dial)) conn?' messages' b' := by
  cases hlookup : s.service.client.requests.lookup id with
  | none =>
    have hpoll : s.service.client.poll now dial id = (.pending, s.service.client) := by
      rw [Client.poll, hlookup]
    have hstep := Service.step_poll_silent hpoll rfl
    rw [step_of_silent rfl (by rw [hstep]), hstep]
    exact ⟨_, _, _, h⟩
  | some r =>
    have hmem := mem_of_lookup hlookup
    rcases h.requests _ hmem with ⟨hidle, hunsent⟩ | ⟨before, e, since, waiter, error, hwaits⟩
    · rcases Client.waits_or_enters h.shares h.orderly.numbers h.mode h.lone hmem hidle now dial with
        hwaits | ⟨capacity, henters⟩ | ⟨failure, rfl, hfails⟩
      · exact ⟨_, _, _, h.waits hmem hidle hwaits⟩
      · exact h.enters hmem hidle henters
      · obtain ⟨turns, nextTurn, hpoll, hshares⟩ := hfails
        rw [hpoll] at hshares
        refine ⟨_, _, b, h.ends hmem hpoll ⟨rfl, rfl, rfl⟩ hshares
          ⟨h.lone.connections, h.lone.stored, h.lone.isOpen⟩ h.linked h.carries
            (h.rest?_of_unsent hmem hunsent) ?_⟩
        intro v heq
        cases heq
    · obtain ⟨c, conn', b', -, hinv, -⟩ := h.polls hwaits hmem now dial
      exact ⟨_, _, _, hinv⟩

/-! ### Runs -/

theorem Inv.step {event : Event} (hturn : s.service.InTurn event) :
    ∃ conn?' messages' b', Inv (s.step event) conn?' messages' b' := by
  cases event with
  | begin event payload => exact ⟨_, _, _, h.begin hturn⟩
  | poll id now dial => exact h.poll id now dial
  | peerReads count =>
    obtain ⟨conn?', hinv⟩ := h.peerReads count
    exact ⟨_, _, _, hinv⟩
  | respond response => exact ⟨_, _, _, h.respond hturn⟩
  | peerWrites count =>
    obtain ⟨conn?', hinv⟩ := h.peerWrites count
    exact ⟨_, _, _, hinv⟩
  | reader =>
    obtain ⟨conn?', hinv⟩ := h.reader
    exact ⟨_, _, _, hinv⟩

end

theorem Inv.run {events : List Event} (h : Inv s conn? messages b)
    (hturn : Along InTurn s.service events) :
    ∃ conn?' messages' b', Inv (s.run events) conn?' messages' b' := by
  induction events generalizing s conn? messages b with
  | nil => exact ⟨_, _, _, h⟩
  | cons event events ih =>
    obtain ⟨conn?', messages', b', h'⟩ := h.step hturn.1
    exact ih h' hturn.2

end Succession

end EnvelopeClient
