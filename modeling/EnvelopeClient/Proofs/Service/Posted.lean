import EnvelopeClient.Proofs.Client.Sharing
import EnvelopeClient.Proofs.Connection.Writing
import EnvelopeClient.Proofs.Service.System

/-!
# Requests that share a connection

`Service.Posted` is what every event keeps, whatever tags and deadlines the requests have and however
the peer answers: all requests share one connection, if there is one yet, and the messages are those
of the requests that were sent. What an unfinished request has been given is not told here, as that
depends on the answers.
-/

namespace EnvelopeClient

/-! ### Requests that are under way -/

section

variable {c client : Client} {id k : Nat} {r : InFlight} {progress : Progress} {call : Call}

theorem InFlight.isUnderWay_of_idle (h : r.Idle) : r.isUnderWay = false := by
  rw [isUnderWay]
  split
  · next heq => exact absurd heq (h _ _)
  · rfl

theorem InFlight.isUnderWay_of_running (h : r.progress = .running k call) :
    r.isUnderWay = true := by
  rw [isUnderWay, h]

namespace Client

theorem isUnderWay_of_mem (hkeys : (c.requests.map Prod.fst).Nodup)
    (hmem : (id, r) ∈ c.requests) : c.isUnderWay id = r.isUnderWay := by
  rw [isUnderWay, lookup_of_mem hkeys hmem, Option.any_some]

/-- What is noted of a request decides whether it is under way. -/
theorem isUnderWay_setProgress (hkeys : (c.requests.map Prod.fst).Nodup)
    (hmem : (id, r) ∈ c.requests) (progress : Progress) :
    (c.setProgress id progress).isUnderWay id = InFlight.isUnderWay { r with progress } := by
  refine isUnderWay_of_mem ?_ ?_
  · rwa [map_fst_setProgress]
  · exact (setProgress_perm hkeys hmem progress).mem_iff.mpr List.mem_cons_self

/-- A request that has ended is not. -/
theorem isUnderWay_of_filter (hrequests : client.requests = c.requests.filter (·.1 ≠ id)) :
    client.isUnderWay id = false := by
  have hnone : client.requests.lookup id = none := by
    refine List.lookup_eq_none_iff.mpr ?_
    intro p hp
    rw [hrequests] at hp
    have hne : p.1 ≠ id := by simpa using (List.mem_filter.mp hp).2
    simpa using hne.symm
  rw [isUnderWay, hnone, Option.any_none]

end Client

end

namespace Service

open Exchange

/-- All requests share one connection, which there is once one was sent; the messages are those of the
requests that were sent, in their order, and no more than these are answered. -/
structure Posted (s : Service) (conn? : Option Connection) (messages : List Envelope) : Prop where
  orderly : s.client.Orderly
  shares : s.client.Shares
  lone : s.client.Lone conn?
  mode : s.client.config.mode = .shared
  number : s.client.nextRequest = s.asked.length
  once : s.sent.Nodup
  written : List.Forall₂ s.IsMessage s.sent messages
  answered : s.responses.length ≤ s.sent.length
  linked : conn? = none → messages = []

theorem posted_start {config : Config} (hmode : config.mode = .shared) :
    Posted (start config) none [] where
  orderly := Client.orderly_ofConfig config
  shares := Client.shares_ofConfig config
  lone := ⟨rfl, rfl, fun _ heq => by cases heq⟩
  mode := hmode
  number := rfl
  once := List.nodup_nil
  written := .nil
  answered := Nat.le_refl _
  linked _ := rfl

/-- What was asked stays asked. -/
theorem IsMessage.begin {s : Service} {id : Nat} {e : Envelope} (h : s.IsMessage id e)
    (event : String) (payload : Payload) : (s.step (.begin event payload)).IsMessage id e := by
  obtain ⟨payload', hasked, hpayload⟩ := h
  exact ⟨payload', getElem?_append_of_some hasked _, hpayload⟩

namespace Posted

variable {s : Service} {conn? conn?' : Option Connection} {messages : List Envelope}
  {id n now : Nat} {dial : Dial} {c c' : Connection} {client : Client} {r : InFlight}
  {progress : Progress} {call : Call} {outcome : Outcome}

variable (h : s.Posted conn? messages)

include h

theorem length : messages.length = s.sent.length := h.written.length_eq.symm

theorem message (hn : s.sent[n]? = some id) : ∃ e, messages[n]? = some e ∧ s.IsMessage id e := by
  obtain ⟨hlt, rfl⟩ := List.getElem?_eq_some_iff.mp hn
  have hlt' : n < messages.length := h.length ▸ hlt
  exact ⟨messages[n], List.getElem?_eq_getElem hlt', h.written.get hlt hlt'⟩

/-- Nobody is sent twice. -/
theorem sent_inj {m : Nat} (hm : s.sent[m]? = some id) (hn : s.sent[n]? = some id) : m = n :=
  (List.getElem?_inj (List.getElem?_eq_some_iff.mp hm).1 h.once).mp (hm.trans hn.symm)

/-- Nobody is sent who was not asked for. -/
theorem lt_of_sent (hid : id ∈ s.sent) : id < s.asked.length := by
  obtain ⟨n, hn⟩ := List.mem_iff_getElem?.mp hid
  obtain ⟨e, -, payload, hasked, -⟩ := h.message hn
  exact (List.getElem?_eq_some_iff.mp hasked).1

theorem nextRequest_not_sent : s.client.nextRequest ∉ s.sent := by
  intro hmem
  exact Nat.lt_irrefl _ (h.number ▸ h.lt_of_sent hmem)

/-- Whoever is answered was sent. -/
theorem lt_of_answered {response : Response} (hn : s.responses[n]? = some response) :
    n < messages.length :=
  h.length ▸ Nat.lt_of_lt_of_le (List.getElem?_eq_some_iff.mp hn).1 h.answered

/-- Without a connection nothing was sent, and so nothing answered. -/
theorem responses_of_none (hconn : conn? = none) : s.responses = [] := by
  have hle := h.answered
  rw [← h.length, h.linked hconn] at hle
  exact List.eq_nil_of_length_eq_zero (Nat.le_zero.mp hle)

/-! ### The connection -/

theorem exists_connection (hmessages : messages ≠ []) : ∃ c, conn? = some c := by
  cases hconn : conn? with
  | none => exact absurd (h.linked hconn) hmessages
  | some c => exact ⟨c, rfl⟩

theorem getElem?_connections (hconn : conn? = some c) : s.client.connections[0]? = some c := by
  rw [h.lone.connections, hconn]
  rfl

/-- The connection is stored, so it is not released. -/
theorem isGone (hconn : conn? = some c) : c.isGone = false := by
  have hstored : s.client.stored = some 0 := by rw [h.lone.stored, hconn]; rfl
  have halive := h.orderly.alive 0 c (h.getElem?_connections hconn) (.inl hstored)
  rw [Connection.isGone, halive, Bool.false_and]

theorem accounts (hconn : conn? = some c) :
    Accounts (Client.waitersOf s.client.requests 0) c.exchange :=
  h.orderly.accounts 0 c (h.getElem?_connections hconn) (h.isGone hconn)

theorem sound (capacity : Option Nat) : (s.client.link capacity conn?).exchange.Sound := by
  cases hconn : conn? with
  | none => exact sound_opened
  | some c => exact (h.accounts hconn).sound

theorem unread_eq (capacity : Option Nat) :
    s.client.unread = (s.client.link capacity conn?).outbound.unread := by
  rw [Client.unread, h.lone.connections]
  cases conn? with
  | none => rfl
  | some c => exact List.flatMap_singleton _ _

/-- Where every connection has room for everything, the one there is has. -/
theorem capacity_eq (hcapacity : ∀ c ∈ s.client.connections, c.outbound.capacity = none) :
    (s.client.link none conn?).outbound.capacity = none := by
  cases hconn : conn? with
  | none => rfl
  | some c => exact hcapacity c (List.mem_of_getElem? (h.getElem?_connections hconn))

/-- Nobody is in line on the connection if everything is written, and the other way round. -/
theorem written_iff (capacity : Option Nat) :
    s.Written ↔ (s.client.link capacity conn?).turns = [] := by
  rw [Service.Written, h.lone.connections]
  cases conn? with
  | none => exact ⟨fun _ => rfl, fun _ c hc => by cases hc⟩
  | some c => simp [Client.link]

/-- What becomes of the messages, if polling the request whose message is first in line writes it as
far as there is room. -/
theorem transmits {b : Backlog} (hwrites : (s.client.link none conn?).Writes messages s.read b)
    (hroom : (s.client.link none conn?).outbound.capacity = none → b.rests = [])
    (hfirst : ∀ left, b.rest? b.written = some left → ∃ id ∈ s.sent, ∀ now dial,
      ∀ c ∈ s.client.connections, (s.step (.poll id now dial)).client.unread =
        s.client.unread ++ left.take (c.outbound.room left.length)) : s.Transmits where
  once := h.once
  messages := by
    refine ⟨messages, h.written, ?_, ?_⟩
    · rw [h.unread_eq none, ← hwrites.bytes, ← List.append_assoc]
      exact List.prefix_append _ _
    · rw [h.written_iff none, h.unread_eq none]
      exact hwrites.turns_eq_nil_iff
  room hcapacity := by
    refine (h.written_iff none).mpr ?_
    rw [hwrites.turns, hroom (h.capacity_eq hcapacity)]
    rfl
  writing hwritten := by
    obtain ⟨left, hleft, hrest⟩ := hwrites.exists_first fun hturns =>
      hwritten ((h.written_iff none).mpr hturns)
    obtain ⟨id, hid, hwriting⟩ := hfirst left hrest
    exact ⟨id, hid, left, hleft, hwriting⟩

/-- A poll notes what is left of a call. -/
theorem poll_pending (hconn : conn? = some c) (hmem : (id, r) ∈ s.client.requests)
    (hrunning : r.progress = .running 0 call) {call' : Call}
    (hcall : call.poll c now = (.pending call', c')) (dial : Dial) :
    s.client.poll now dial id =
      (.pending, { s.client with connections := [c'] }.setProgress id (.running 0 call')) := by
  subst hconn
  rw [Client.poll_of_running h.orderly.numbers hmem hrunning (h.getElem?_connections rfl), hcall,
    Client.absorb_of_stored h.lone.stored h.lone.connections]

/-- A poll that ends a call ends its request. -/
theorem poll_finished (hconn : conn? = some c) (hmem : (id, r) ∈ s.client.requests)
    (hrunning : r.progress = .running 0 call)
    (hcall : call.poll c now = (.finished outcome, c')) (dial : Dial) :
    s.client.poll now dial id = (.finished (Client.replyOf outcome), { s.client with
      connections := [c'], requests := s.client.requests.filter (·.1 ≠ id) }) := by
  subst hconn
  rw [Client.poll_of_running h.orderly.numbers hmem hrunning (h.getElem?_connections rfl), hcall,
    Client.absorb_of_stored h.lone.stored h.lone.connections]

/-! ### What is noted of a poll -/

/-- A poll that leaves a request waiting for the slot or the socket sends nothing. -/
theorem step_waits (hmem : (id, r) ∈ s.client.requests) (hidle : r.Idle)
    (hnot : ∀ k call, progress ≠ .running k call) {turns : List Nat} {nextTurn : Nat}
    (hpoll : s.client.poll now dial id =
      (.pending, { s.client with turns, nextTurn }.setProgress id progress)) :
    s.step (.poll id now dial) =
      { s with client := { s.client with turns, nextTurn }.setProgress id progress } := by
  refine step_poll_silent hpoll ?_
  rw [Client.isUnderWay_of_mem h.orderly.numbers hmem, InFlight.isUnderWay_of_idle hidle,
    Client.isUnderWay_setProgress (c := { s.client with turns, nextTurn }) h.orderly.numbers hmem]
  exact InFlight.isUnderWay_of_idle hnot

/-- A poll that begins a request on a connection sends it. -/
theorem step_sends (hmem : (id, r) ∈ s.client.requests) (hidle : r.Idle) {turns : List Nat}
    {nextTurn : Nat}
    (hclient : client = { s.client with
      turns, nextTurn, connections := [c], stored := some 0 }.setProgress id (.running 0 call))
    (hpoll : s.client.poll now dial id = (.pending, client)) :
    s.step (.poll id now dial) = { s with client, sent := s.sent ++ [id] } := by
  refine step_poll_sent hpoll ?_ ?_
  · rw [Client.isUnderWay_of_mem h.orderly.numbers hmem, InFlight.isUnderWay_of_idle hidle]
  · rw [hclient, Client.isUnderWay_setProgress (c := { s.client with
      turns, nextTurn, connections := [c], stored := some 0 }) h.orderly.numbers hmem]
    exact InFlight.isUnderWay_of_running rfl

/-- A poll that leaves a request under way does not send it again. -/
theorem step_goesOn (hmem : (id, r) ∈ s.client.requests) (hrunning : r.progress = .running 0 call)
    {call' : Call}
    (hpoll : s.client.poll now dial id =
      (.pending, { s.client with connections := [c'] }.setProgress id (.running 0 call'))) :
    s.step (.poll id now dial) = { s with
      client := { s.client with connections := [c'] }.setProgress id (.running 0 call') } := by
  refine step_poll_silent hpoll ?_
  rw [Client.isUnderWay_of_mem h.orderly.numbers hmem, InFlight.isUnderWay_of_running hrunning,
    Client.isUnderWay_setProgress (c := { s.client with connections := [c'] }) h.orderly.numbers
      hmem]
  exact InFlight.isUnderWay_of_running rfl

/-! ### Events -/

/-- Something happens to the connection, if there is one. -/
theorem befall {what : Connection.Incident} {read outgoing : List UInt8}
    (hopen : ∀ c, conn?.map (·.befall what) = some c → c.status = .open) :
    Posted { s with client := s.client.onConnection 0 (·.befall what), read, outgoing }
      (conn?.map (·.befall what)) messages :=
  { h with
    orderly := h.orderly.incident 0 what
    shares := h.shares.onConnection 0 _
    lone := by
      refine ⟨?_, ?_, hopen⟩
      · rw [Client.onConnection, h.lone.connections]
        cases conn? <;> rfl
      · rw [Option.map_map]
        exact h.lone.stored
    linked := fun hconn => h.linked (Option.map_eq_none_iff.mp hconn) }

theorem respond {response : Response} (hlt : s.responses.length < s.sent.length) :
    Posted (s.step (.respond response)) conn? messages :=
  { h with
    answered := by
      show (s.responses ++ [response]).length ≤ _
      rw [List.length_append]
      exact hlt }

theorem begin (event : String) (payload : Payload) :
    Posted (s.step (.begin event payload)) conn? messages :=
  { h with
    orderly := h.orderly.begin event payload
    shares := h.shares.begin event payload
    lone := ⟨h.lone.connections, h.lone.stored, h.lone.isOpen⟩
    number := by
      show s.client.nextRequest + 1 = (s.asked ++ [(event, payload)]).length
      rw [h.number, List.length_append, List.length_singleton]
    written := h.written.imp fun _ _ hmessage => hmessage.begin event payload }

/-- A poll leaves a request waiting. -/
theorem waits {turns : List Nat} {nextTurn : Nat}
    (hpoll : s.client.poll now dial id =
      (.pending, { s.client with turns, nextTurn }.setProgress id progress))
    (hshares : (s.client.poll now dial id).2.Shares) :
    Posted { s with client := { s.client with turns, nextTurn }.setProgress id progress } conn?
      messages := by
  have horderly := h.orderly.poll now dial id
  rw [hpoll] at horderly hshares
  exact { h with
    orderly := horderly
    shares := hshares
    lone := ⟨h.lone.connections, h.lone.stored, h.lone.isOpen⟩ }

/-- A poll sends a request. -/
theorem sends {e : Envelope} {turns : List Nat} {nextTurn : Nat} (hmessage : s.IsMessage id e)
    (hunsent : id ∉ s.sent) (hopen : c.status = .open)
    (hclient : client = { s.client with
      turns, nextTurn, connections := [c], stored := some 0 }.setProgress id progress)
    (hpoll : s.client.poll now dial id = (.pending, client)) (hshares : client.Shares) :
    Posted { s with client, sent := s.sent ++ [id] } (some c) (messages ++ [e]) := by
  have horderly := h.orderly.poll now dial id
  rw [hpoll] at horderly
  exact { h with
    orderly := horderly
    shares := hshares
    lone := by
      rw [hclient]
      refine ⟨rfl, rfl, ?_⟩
      rintro conn ⟨⟩
      exact hopen
    mode := by
      rw [hclient]
      exact h.mode
    number := by
      rw [hclient]
      exact h.number
    once := by
      refine List.nodup_append'.mpr ⟨h.once, List.nodup_singleton _, ?_⟩
      intro other hother hid
      obtain rfl := List.mem_singleton.mp hid
      exact hunsent hother
    written := List.rel_append h.written (.cons hmessage .nil)
    answered := by
      rw [List.length_append]
      exact Nat.le_add_right_of_le h.answered
    linked := fun hconn => by cases hconn }

/-- A poll leaves a request under way. -/
theorem goesOn (hconn : conn? = some c) (hmem : (id, r) ∈ s.client.requests)
    (hrunning : r.progress = .running 0 call) {call' : Call}
    (hcall : call.poll c now = (.pending call', c')) (hopen : c'.status = .open) (dial : Dial) :
    Posted { s with
        client := { s.client with connections := [c'] }.setProgress id (.running 0 call') }
      (some c') messages := by
  have hpoll := h.poll_pending hconn hmem hrunning hcall dial
  have horderly := h.orderly.poll now dial id
  rw [hpoll] at horderly
  subst hconn
  exact { h with
    orderly := horderly
    shares := h.shares.goesOn h.orderly.numbers hmem hrunning h.lone.connections c' call'
    lone := by
      refine ⟨rfl, h.lone.stored, ?_⟩
      rintro conn ⟨⟩
      exact hopen
    linked := fun hconn => by cases hconn }

/-- A poll ends a request. -/
theorem ends {reply : Reply} (hpoll : s.client.poll now dial id = (.finished reply, client))
    (hconfig : client.config = s.client.config)
    (hnumber : client.nextRequest = s.client.nextRequest) (hshares : client.Shares)
    (hlone : client.Lone conn?') (hlinked : conn?' = none → messages = []) :
    Posted { s with client, replies := s.replies ++ [(id, reply)] } conn?' messages := by
  have horderly := h.orderly.poll now dial id
  rw [hpoll] at horderly
  exact { h with
    orderly := horderly
    shares := hshares
    lone := hlone
    mode := hconfig ▸ h.mode
    number := hnumber.trans h.number
    linked := hlinked }

end Posted

end Service

end EnvelopeClient
