import EnvelopeClient.Proofs.Service.Line
import EnvelopeClient.Proofs.Service.Posted

/-!
# What ties requests to the responses to them

`Service.Inv` says of requests that share a connection (`Service.Posted`) that their messages and the
responses to them stand on it in the order in which the requests were sent, and that every request
has come as far as its message. Each event keeps it; that an error message reaches the request it
answers takes `Service.Prompt`.
-/

namespace EnvelopeClient

open Json EnvelopeClient.Frame EnvelopeClient.Exchange

namespace Service

/-- What is asked: distinct tags, none of them that of error messages, and payloads that can be
sent. -/
structure Askable (asked : List (String × Payload)) : Prop where
  tags : (asked.map Prod.fst).Nodup
  noError : Envelope.errorEvent ∉ asked.map Prod.fst
  sendable : ∀ p ∈ asked, ∃ v, p.2.toValue = .ok v

theorem Askable.add {asked : List (String × Payload)} (h : Askable asked) {event : String}
    {payload : Payload} (herror : event ≠ Envelope.errorEvent) (hfresh : event ∉ asked.map Prod.fst)
    (hsendable : ∃ v, payload.toValue = .ok v) : Askable (asked ++ [(event, payload)]) where
  tags := by
    rw [List.map_append]
    refine List.nodup_append'.mpr ⟨h.tags, List.nodup_singleton _, ?_⟩
    intro tag htag hnew
    obtain rfl := List.mem_singleton.mp hnew
    exact hfresh htag
  noError := by
    rw [List.map_append, List.mem_append, not_or]
    exact ⟨h.noError, fun hmem => herror (List.mem_singleton.mp hmem).symm⟩
  sendable p hp := by
    rcases List.mem_append.mp hp with hp | hp
    · exact h.sendable p hp
    · obtain rfl := List.mem_singleton.mp hp
      exact hsendable

/-- What the request does that was sent as the `n`th. -/
def call (b : Backlog) (n : Nat) (event : String) : Call :=
  b.call n event (2 * n) (some (2 * n + 1)) none none

/-- How far an unfinished request has come: it was not sent, or it was as the `n`th and has come as
far as its message. -/
def Stands (s : Service) (b : Backlog) (id : Nat) (r : InFlight) : Prop :=
  s.asked[id]? = some (r.event, r.payload) ∧
    (r.Idle ∧ id ∉ s.sent ∨
      ∃ n, s.sent[n]? = some id ∧ r.progress = .running 0 (call b n r.event))

/-- What holds behind any events: all requests share one connection, if there is one yet, and have
come as far as their messages. -/
structure Inv (s : Service) (conn? : Option Connection) (messages : List Envelope)
    (done back : List Response) (b : Backlog) : Prop extends s.Posted conn? messages where
  unlimited : s.client.config.timeouts.request? = none
  askable : Askable s.asked
  responses : s.responses = done ++ back
  fits : ∀ {n : Nat} {r : Response} {e : Envelope}, s.responses[n]? = some r →
    messages[n]? = some e → r.Fits e.event
  /-- Whatever room a connection has that is to be opened. -/
  line : ∀ capacity, (s.client.link capacity conn?).Line messages done back s.read s.outgoing b
  requests : ∀ p ∈ s.client.requests, s.Stands b p.1 p.2
  replies : ∀ p ∈ s.replies, ∃ (n : Nat) (r : Response), s.sent[n]? = some p.1 ∧
    b.rest? n = none ∧ done[n]? = some r ∧ p.2 = r.reply
  ended : ∀ id < s.asked.length,
    id ∈ s.client.requests.map Prod.fst ∨ id ∈ s.replies.map Prod.fst

variable {s : Service} {conn? : Option Connection} {messages : List Envelope}
  {done back : List Response} {b b' : Backlog} {id n now : Nat} {dial : Dial} {r : InFlight}
  {c c' : Connection} {client : Client} {event : String}

/-! ### What a request does that was sent -/

theorem waiters_call : (call b n event).waiters = [2 * n, 2 * n + 1] := Backlog.waiters_call

/-- It has been given a reply if the first of its waiters has. -/
theorem isReplied_of_running (hrunning : r.progress = .running 0 (call b n event)) :
    r.isReplied c = (c.outcome? (2 * n)).isSome := by
  rw [InFlight.isReplied, hrunning, call, Backlog.call]
  cases b.rest? n <;> rfl

/-- What happens to the messages of others is nothing to a request. -/
theorem Stands.congr (h : s.Stands b id r)
    (hsame : ∀ n, s.sent[n]? = some id → b'.rest? n = b.rest? n) : s.Stands b' id r := by
  refine ⟨h.1, ?_⟩
  rcases h.2 with hunsent | ⟨n, hn, hrunning⟩
  · exact .inl hunsent
  · refine .inr ⟨n, hn, ?_⟩
    rw [hrunning, call, call, Backlog.call_congr (hsame n hn)]

/-- A request stands where it stood when another is sent. -/
theorem Stands.send {other : Nat} (h : s.Stands b id r) (hne : id ≠ other) :
    Stands { s with client, sent := s.sent ++ [other] } b id r := by
  refine ⟨h.1, ?_⟩
  rcases h.2 with ⟨hidle, hunsent⟩ | ⟨n, hn, hrunning⟩
  · refine .inl ⟨hidle, ?_⟩
    rw [List.mem_append, List.mem_singleton, not_or]
    exact ⟨hunsent, hne⟩
  · exact .inr ⟨n, getElem?_append_of_some hn _, hrunning⟩

theorem inv_start {config : Config} (hmode : config.mode = .shared)
    (hlimit : config.timeouts.request? = none) : Inv (start config) none [] [] [] .empty where
  toPosted := posted_start hmode
  unlimited := hlimit
  askable := ⟨List.nodup_nil, List.not_mem_nil, fun _ hp => by cases hp⟩
  responses := rfl
  fits hr := by cases hr
  line capacity := Connection.line_opened _ capacity
  requests p hp := by cases hp
  replies p hp := by cases hp
  ended id hid := absurd hid (Nat.not_lt_zero id)

section

variable (h : Inv s conn? messages done back b)

include h

/-! ### What the invariant says of one request -/

theorem Inv.tag {e : Envelope} (he : messages[n]? = some e) :
    ∃ id, s.sent[n]? = some id ∧ (s.asked.map Prod.fst)[id]? = some e.event := by
  obtain ⟨hlt, rfl⟩ := List.getElem?_eq_some_iff.mp he
  have hlt' : n < s.sent.length := h.length ▸ hlt
  obtain ⟨payload, hasked, -⟩ := h.written.get hlt' hlt
  refine ⟨s.sent[n], List.getElem?_eq_getElem hlt', ?_⟩
  rw [List.getElem?_map]
  exact congrArg (Option.map Prod.fst) hasked

/-- The tags of the messages are distinct. -/
theorem Inv.nodup_events : (messages.map (·.event)).Nodup := by
  refine List.nodup_iff_getElem?_ne_getElem?.mpr ?_
  intro i j hij hj heq
  rw [List.length_map] at hj
  rw [List.getElem?_map, List.getElem?_map, List.getElem?_eq_getElem hj,
    List.getElem?_eq_getElem (Nat.lt_trans hij hj)] at heq
  obtain ⟨a, ha, htag⟩ := h.tag (List.getElem?_eq_getElem (Nat.lt_trans hij hj))
  obtain ⟨b, hb, htag'⟩ := h.tag (List.getElem?_eq_getElem hj)
  have hsame : a = b := by
    refine (List.getElem?_inj (List.getElem?_eq_some_iff.mp htag).1 h.askable.tags).mp ?_
    rw [htag, htag']
    exact heq
  exact Nat.ne_of_lt hij (h.sent_inj ha (hsame ▸ hb))

theorem Inv.errorEvent_not_mem : Envelope.errorEvent ∉ messages.map (·.event) := by
  intro hmem
  obtain ⟨e, he, heq⟩ := List.mem_map.mp hmem
  obtain ⟨n, hn⟩ := List.mem_iff_getElem?.mp he
  obtain ⟨id, -, htag⟩ := h.tag hn
  exact h.askable.noError (heq ▸ List.mem_of_getElem? htag)

theorem Inv.done_le : done.length ≤ messages.length := by
  have hle := h.answered
  rw [h.responses, List.length_append, ← h.length] at hle
  exact Nat.le_of_add_right_le hle

/-- Whoever is not under way was not sent. -/
theorem Inv.unsent_of_idle (hmem : (id, r) ∈ s.client.requests) (hidle : r.Idle) : id ∉ s.sent := by
  rcases (h.requests _ hmem).2 with ⟨-, hunsent⟩ | ⟨n, -, hrunning⟩
  · exact hunsent
  · exact absurd hrunning (hidle _ _)

/-- Whoever was sent and has not ended has come as far as its message. -/
theorem Inv.running_of_sent (hmem : (id, r) ∈ s.client.requests) (hn : s.sent[n]? = some id) :
    r.progress = .running 0 (call b n r.event) := by
  obtain ⟨m, hm, hrunning⟩ := (h.requests _ hmem).2.resolve_left
    fun hidle => hidle.2 (List.mem_of_getElem? hn)
  obtain rfl : m = n := h.sent_inj hm hn
  exact hrunning

/-- Whoever is left when one is polled stands where it stood. -/
theorem Inv.stands_others (hn : s.sent[n]? = some id)
    (hothers : ∀ m, m ≠ n → b'.rest? m = b.rest? m) {p : Nat × InFlight}
    (hp : p ∈ s.client.requests.filter (·.1 ≠ id)) : s.Stands b' p.1 p.2 := by
  obtain ⟨hp, hne⟩ := List.mem_filter.mp hp
  have hne : p.1 ≠ id := by simpa using hne
  refine (h.requests p hp).congr ?_
  intro m hm
  refine hothers m ?_
  rintro rfl
  exact hne (Option.some.inj (hm.symm.trans hn))

/-- Whoever has ended has ended with its response, and its message stays written. -/
theorem Inv.replies_of_forwards (hforwards : c.Forwards c' messages s.read b b' n) :
    ∀ p ∈ s.replies, ∃ (n : Nat) (r : Response), s.sent[n]? = some p.1 ∧
      b'.rest? n = none ∧ done[n]? = some r ∧ p.2 = r.reply := by
  intro p hp
  obtain ⟨m, r, hm, hrest, hr⟩ := h.replies p hp
  exact ⟨m, r, hm, hforwards.rest?_eq_none hrest, hr⟩

/-- The message of an unfinished request has its tag. -/
theorem Inv.event_of_sent (hmem : (id, r) ∈ s.client.requests) (hn : s.sent[n]? = some id) :
    (messages.map (·.event))[n]? = some r.event := by
  obtain ⟨e, he, payload, hasked, -⟩ := h.message hn
  have htag : e.event = r.event :=
    congrArg Prod.fst (Option.some.inj (hasked.symm.trans (h.requests _ hmem).1))
  rw [List.getElem?_map, he, ← htag]
  rfl

/-- A response that is on its way has a message it answers. -/
theorem Inv.done_length_lt {response : Response} {left : List Response}
    (hback : back = response :: left) : done.length < messages.length := by
  have hle := h.answered
  rw [h.responses, hback, List.length_append, List.length_cons, ← h.length] at hle
  omega

theorem Inv.line_of_some (hconn : conn? = some c) :
    c.Line messages done back s.read s.outgoing b := by
  subst hconn
  exact h.line none

/-- Without a connection nothing was sent, and so nothing is to be written. -/
theorem Inv.outgoing_of_none (hconn : conn? = none) : s.outgoing = [] := by
  have hresponses := h.responses_of_none hconn
  rw [h.responses] at hresponses
  obtain ⟨-, rfl⟩ := List.append_eq_nil_iff.mp hresponses
  exact (h.line none).toBrings.outgoing_eq_nil

/-! ### The peer and the reader -/

/-- Something happens to the connection, if there is one. -/
theorem Inv.befall {what : Connection.Incident} {more back' : List Response}
    {read outgoing : List UInt8} (hresponses : s.responses = done ++ more ++ back')
    (hline : ∀ capacity, (s.client.link capacity (conn?.map fun c => c.befall what)).Line messages
      (done ++ more) back' read outgoing b) :
    Inv { s with client := s.client.onConnection 0 (·.befall what), read, outgoing }
      (conn?.map fun c => c.befall what) messages (done ++ more) back' b :=
  { h with
    toPosted := by
      refine h.toPosted.befall ?_
      intro c hc
      rw [hc] at hline
      exact (hline none).calm.isOpen
    responses := hresponses
    line := hline
    requests := h.requests
    replies := by
      intro p hp
      obtain ⟨n, r, hn, hrest, hr, hreply⟩ := h.replies p hp
      exact ⟨n, r, hn, hrest, getElem?_append_of_some hr more, hreply⟩ }

/-- The same if nothing is given to a waiter. -/
theorem Inv.befall_same {what : Connection.Incident} {read outgoing : List UInt8}
    (hline : ∀ capacity, (s.client.link capacity (conn?.map fun c => c.befall what)).Line messages
      done back read outgoing b) :
    Inv { s with client := s.client.onConnection 0 (·.befall what), read, outgoing }
      (conn?.map fun c => c.befall what) messages done back b := by
  rw [← List.append_nil done] at hline
  have hinv := h.befall (by rw [List.append_nil, h.responses]) hline
  rwa [List.append_nil] at hinv

theorem Inv.peerReads (count : Nat) :
    ∃ conn?', Inv (s.step (.peerReads count)) conn?' messages done back b := by
  refine ⟨_, h.befall_same ?_⟩
  intro capacity
  rw [h.unread_eq capacity]
  cases conn? with
  | none =>
    have hempty : (s.client.link capacity none).outbound.unread = [] := rfl
    rw [hempty, List.take_nil, List.append_nil]
    exact h.line capacity
  | some c => exact (h.line capacity).peerReads count

theorem Inv.peerWrites (count : Nat) :
    ∃ conn?', Inv (s.step (.peerWrites count)) conn?' messages done back b := by
  refine ⟨_, h.befall_same ?_⟩
  intro capacity
  cases hconn : conn? with
  | none =>
    have hline := h.line capacity
    rw [h.outgoing_of_none hconn, hconn] at hline
    rw [h.outgoing_of_none hconn, List.drop_nil]
    exact hline
  | some c =>
    subst hconn
    exact (h.line capacity).peerWrites count

theorem Inv.respond {response : Response} (hfair : s.Fair (.respond response)) :
    Inv (s.step (.respond response)) conn? messages done (back ++ [response]) b := by
  obtain ⟨id, event, payload, hid, hasked, hfit⟩ := hfair
  exact { h with
    toPosted := h.toPosted.respond (List.getElem?_eq_some_iff.mp hid).1
    responses := by
      show s.responses ++ [response] = _
      rw [h.responses, List.append_assoc]
    fits := by
      intro n r e hr he
      rcases getElem?_concat_cases hr with ⟨rfl, rfl⟩ | ⟨-, hr⟩
      · -- the tag it is for is that of the message
        obtain ⟨e', he', payload', hasked', -⟩ := h.message hid
        obtain rfl := Option.some.inj (he.symm.trans he')
        obtain rfl : event = e.event :=
          congrArg Prod.fst (Option.some.inj (hasked.symm.trans hasked'))
        exact hfit
      · exact h.fits hr he
    line := fun capacity => (h.line capacity).respond response
    requests := h.requests
    replies := h.replies }

/-- The request the next response answers waits for it. -/
theorem Inv.isWaiting_target (hconn : conn? = some c) {response : Response} {left : List Response}
    (hback : back = response :: left) :
    c.exchange.isWaiting (target done.length response) = true := by
  have hlt : done.length < s.sent.length := h.length ▸ h.done_length_lt hback
  have hn := List.getElem?_eq_getElem hlt
  have hnone : done[done.length]? = none := List.getElem?_eq_none (Nat.le_refl _)
  -- it has not ended, as whoever has ended has been given its response
  have hunended : s.sent[done.length] ∉ s.replies.map Prod.fst := by
    intro hmem
    obtain ⟨p, hp, heq⟩ := List.mem_map.mp hmem
    obtain ⟨m, r, hm, -, hr, -⟩ := h.replies p hp
    obtain rfl : m = done.length := h.sent_inj (heq ▸ hm) hn
    rw [hnone] at hr
    cases hr
  obtain ⟨⟨id, r⟩, hp, rfl⟩ := List.mem_map.mp
    ((h.ended _ (h.lt_of_sent (List.getElem_mem hlt))).resolve_right hunended)
  have hrunning := h.running_of_sent hp hn
  have hevent := h.event_of_sent hp hn
  have hattends := (h.line_of_some hconn).attends
  refine (h.accounts hconn).isWaiting_iff.mpr ⟨List.mem_flatMap.mpr ⟨_, hp, ?_⟩, ?_⟩
  · rw [InFlight.waitersOn_self hrunning, target, waiters_call]
    cases response.refuses <;> simp
  · have hreply := (hattends.reply hevent).2
    have herror := (hattends.error hevent).2
    rw [hnone] at hreply herror
    rw [target]
    cases response.refuses with
    | true => exact herror
    | false => exact hreply

/-- Whoever listens for error messages is an unfinished request. -/
theorem Inv.exists_listener (hconn : conn? = some c) {m : Nat}
    (hwaiting : c.exchange.isWaiting (2 * m + 1) = true) :
    ∃ p ∈ s.client.requests, p.2.progress = .running 0 (call b m p.2.event) := by
  obtain ⟨p, hp, hmem⟩ := List.mem_flatMap.mp ((h.accounts hconn).covers _ hwaiting)
  refine ⟨p, hp, ?_⟩
  rcases (h.requests p hp).2 with ⟨hidle, -⟩ | ⟨n, -, hrunning⟩
  · rw [InFlight.waitersOn_eq_nil (hidle 0)] at hmem
    cases hmem
  · rw [InFlight.waitersOn_self hrunning, waiters_call] at hmem
    simp only [List.mem_cons, List.not_mem_nil, or_false] at hmem
    obtain rfl : m = n := by omega
    exact hrunning

/-- When the reader takes an error message, nobody older listens for one. -/
theorem Inv.older_not_waiting (hconn : conn? = some c) (hprompt : s.Prompt .reader)
    (htakes : c.takesError = true) {m : Nat} (hm : m < done.length) :
    c.exchange.isWaiting (2 * m + 1) = false := by
  cases hwaiting : c.exchange.isWaiting (2 * m + 1) with
  | false => rfl
  | true =>
    obtain ⟨p, hp, hrunning⟩ := h.exists_listener hconn hwaiting
    have hmem : c ∈ s.client.connections := by simp [h.lone.connections, hconn]
    have hunreplied := hprompt c hmem htakes p hp
    have hline := h.line_of_some hconn
    rw [isReplied_of_running hrunning] at hunreplied
    simp only [Connection.outcome?_of_not_gone hline.calm.isGone, Option.isSome_eq_false_iff,
      Option.isNone_iff_eq_none] at hunreplied
    have hlistening := ((h.accounts hconn).isWaiting_iff.mp hwaiting).2
    -- but it has been given its response, which is a reply or an error message
    have hlt : m < messages.length := Nat.lt_of_lt_of_le hm h.done_le
    have hevent : (messages.map (·.event))[m]? = some messages[m].event := by
      rw [List.getElem?_map, List.getElem?_eq_getElem hlt]
      rfl
    have hreply := (hline.attends.reply hevent).2
    have herror := (hline.attends.error hevent).2
    rw [List.getElem?_eq_getElem hm, Option.bind_some] at hreply herror
    have hverdict := done[m].verdict?_eq
    rw [← hreply, ← herror, hunreplied, hlistening] at hverdict
    cases hverdict

theorem Inv.reader (hprompt : s.Prompt .reader) :
    ∃ conn?' done' back', Inv (s.step .reader) conn?' messages done' back' b := by
  have hsound := h.sound none
  cases hconn : conn? with
  | none =>
    subst hconn
    exact ⟨_, done, back, h.befall_same h.line⟩
  | some c =>
    subst hconn
    cases hstep : c.readerStep with
    | none =>
      have hsame : c.befall .reader = c := by rw [Connection.befall, hstep]; rfl
      refine ⟨_, done, back, h.befall_same ?_⟩
      rw [Option.map_some, hsame]
      exact h.line
    | some c' =>
      have hbefall : c.befall .reader = c' := by rw [Connection.befall, hstep]; rfl
      have hfits : ∀ r ∈ back.head?, ∃ event,
          (messages.map (·.event))[done.length]? = some event ∧ r.Fits event := by
        intro r hr
        obtain ⟨left, hback⟩ := List.head?_eq_some_iff.mp hr
        have hlt := h.done_length_lt hback
        refine ⟨messages[done.length].event, ?_, ?_⟩
        · rw [List.getElem?_map, List.getElem?_eq_getElem hlt]
          rfl
        · refine h.fits ?_ (List.getElem?_eq_getElem hlt)
          rw [h.responses, hback]
          simp
      have hold := h.line_of_some rfl
      rcases hold.readerStep hfits hstep with
        hline | ⟨r, left, event, hback, hevent, htakes, hline⟩
      · refine ⟨_, done, back, h.befall_same ?_⟩
        rw [Option.map_some, hbefall]
        exact fun _ => hline
      · refine ⟨_, done ++ [r], left, h.befall ?_ ?_⟩
        · rw [h.responses, hback, List.append_assoc]
          rfl
        · rw [Option.map_some, hbefall]
          refine fun _ => hline
            (hold.attends.deliver hsound ?_ ?_ hevent (h.isWaiting_target rfl hback) ?_)
          · exact h.nodup_events
          · exact h.errorEvent_not_mem
          · intro hrefuses m hm
            exact h.older_not_waiting rfl hprompt (htakes hrefuses) hm

/-! ### Requests -/

theorem Inv.begin {payload : Payload} (hfair : s.Fair (.begin event payload)) :
    Inv (s.step (.begin event payload)) conn? messages done back b := by
  obtain ⟨herror, hfresh, hsendable⟩ := hfair
  exact { h with
    toPosted := h.toPosted.begin event payload
    askable := h.askable.add herror hfresh hsendable
    requests := by
      intro p hp
      rcases List.mem_append.mp hp with hp | hp
      · obtain ⟨hasked, hcase⟩ := h.requests p hp
        exact ⟨getElem?_append_of_some hasked _, hcase⟩
      · obtain rfl := List.mem_singleton.mp hp
        refine ⟨?_, .inl ⟨InFlight.idle_fresh event payload, h.nextRequest_not_sent⟩⟩
        show (s.asked ++ [(event, payload)])[s.client.nextRequest]? = some (event, payload)
        rw [h.number, List.getElem?_concat_length]
    replies := h.replies
    ended := by
      intro id hid
      have hlt : id < s.asked.length + 1 := by
        simpa [step] using hid
      rw [step, Client.begin, List.map_append, List.mem_append]
      rcases Nat.lt_or_eq_of_le (Nat.le_of_lt_succ hlt) with hlt | rfl
      · rcases h.ended id hlt with hmem | hmem
        · exact .inl (.inl hmem)
        · exact .inr hmem
      · exact .inl (.inr (by simp [h.number])) }

/-- A poll leaves a request waiting. -/
theorem Inv.waits (hmem : (id, r) ∈ s.client.requests) (hidle : r.Idle)
    (hwaits : s.client.Waits id (s.client.poll now dial id)) :
    Inv (s.step (.poll id now dial)) conn? messages done back b := by
  obtain ⟨turns, nextTurn, progress, hnot, heq, hshares⟩ := hwaits
  rw [h.step_waits hmem hidle hnot heq]
  exact { h with
    toPosted := h.toPosted.waits heq hshares
    line := h.line
    requests := by
      intro p hp
      have hperm := Client.setProgress_perm (c := { s.client with turns, nextTurn })
        h.orderly.numbers hmem progress
      rcases List.mem_cons.mp (hperm.mem_iff.mp hp) with rfl | hp
      · exact ⟨(h.requests _ hmem).1, .inl ⟨hnot, h.unsent_of_idle hmem hidle⟩⟩
      · exact h.requests p (List.mem_filter.mp hp).1
    replies := h.replies
    ended := by
      intro id' hid'
      rw [Client.map_fst_setProgress]
      exact h.ended id' hid' }

/-- A poll sends a request. -/
theorem Inv.sends (hmem : (id, r) ∈ s.client.requests) (hidle : r.Idle) {capacity : Option Nat}
    (hsends : s.client.Sends now id r (s.client.link capacity conn?)
      (s.client.poll now dial id)) :
    ∃ c' e b', Inv (s.step (.poll id now dial)) (some c') (messages ++ [e]) done back b' ∧
      (s.step (.poll id now dial)).sent = s.sent ++ [id] := by
  have hasked := (h.requests _ hmem).1
  have hunsent := h.unsent_of_idle hmem hidle
  have hpair : (r.event, r.payload) ∈ s.asked := List.mem_of_getElem? hasked
  obtain ⟨data, hpayload⟩ := h.askable.sendable _ hpair
  have hevent : r.event ≠ Envelope.errorEvent := by
    intro heq
    exact h.askable.noError (List.mem_map.mpr ⟨_, hpair, heq⟩)
  obtain ⟨c', b', hask, hline, hothers⟩ :=
    (h.line capacity).ask (e := ⟨r.event, data⟩) (h.sound capacity) h.done_le hevent hpayload now
  obtain ⟨turns, nextTurn, hpoll⟩ := hsends
  obtain ⟨heq, hshares⟩ := hpoll _ c' hask
  rw [heq] at hshares
  rw [h.step_sends hmem hidle rfl heq]
  refine ⟨c', ⟨r.event, data⟩, b', ?_, rfl⟩
  exact { h with
    toPosted := h.toPosted.sends ⟨r.payload, hasked, hpayload⟩ hunsent hline.calm.isOpen rfl heq
      hshares
    fits := by
      intro n response e hresponse he
      -- whoever has a response was sent before
      rw [List.getElem?_append_left (h.lt_of_answered hresponse)] at he
      exact h.fits hresponse he
    line := fun _ => hline
    requests := by
      intro p hp
      have hperm := Client.setProgress_perm (c := { s.client with
        turns, nextTurn, connections := [c'], stored := some 0 }) h.orderly.numbers hmem
          (.running 0 (call b' messages.length r.event))
      rcases List.mem_cons.mp (hperm.mem_iff.mp hp) with rfl | hp
      · refine ⟨hasked, .inr ⟨messages.length, ?_, rfl⟩⟩
        rw [h.length, List.getElem?_concat_length]
      · obtain ⟨hp, hne⟩ := List.mem_filter.mp hp
        refine ((h.requests p hp).congr ?_).send (by simpa using hne)
        intro n hn
        exact hothers n (h.length ▸ (List.getElem?_eq_some_iff.mp hn).1)
    replies := by
      intro p hp
      obtain ⟨n, response, hn, hrest, hresponse⟩ := h.replies p hp
      have hlt : n < messages.length := h.length ▸ (List.getElem?_eq_some_iff.mp hn).1
      exact ⟨n, response, getElem?_append_of_some hn _, (hothers n hlt).trans hrest, hresponse⟩
    ended := by
      intro id' hid'
      rw [Client.map_fst_setProgress]
      exact h.ended id' hid' }

/-- A poll leaves a request under way, and may have written a part of its message. -/
theorem Inv.goesOn (hconn : conn? = some c) (hmem : (id, r) ∈ s.client.requests)
    (hn : s.sent[n]? = some id) (hline : c'.Line messages done back s.read s.outgoing b')
    (hforwards : c.Forwards c' messages s.read b b' n)
    (hcall : (call b n r.event).poll c now = (.pending (call b' n r.event), c')) (dial : Dial) :
    Inv (s.step (.poll id now dial)) (some c') messages done back b' := by
  have hrunning := h.running_of_sent hmem hn
  rw [h.step_goesOn hmem hrunning (h.poll_pending hconn hmem hrunning hcall dial)]
  exact { h with
    toPosted := h.toPosted.goesOn hconn hmem hrunning hcall hline.calm.isOpen dial
    line := fun _ => hline
    requests := by
      intro p hp
      have hperm := Client.setProgress_perm (c := { s.client with connections := [c'] })
        h.orderly.numbers hmem (.running 0 (call b' n r.event))
      rcases List.mem_cons.mp (hperm.mem_iff.mp hp) with rfl | hp
      · exact ⟨(h.requests _ hmem).1, .inr ⟨n, hn, rfl⟩⟩
      · exact h.stands_others hn hforwards.others hp
    replies := h.replies_of_forwards hforwards
    ended := by
      intro id' hid'
      rw [Client.map_fst_setProgress]
      exact h.ended id' hid' }

/-- A poll ends a request with the response that was handed over. -/
theorem Inv.finishes (hconn : conn? = some c) (hmem : (id, r) ∈ s.client.requests)
    (hn : s.sent[n]? = some id) (hline : c'.Line messages done back s.read s.outgoing b')
    (hforwards : c.Forwards c' messages s.read b b' n) {response : Response}
    (hrest : b'.rest? n = none) (hdone : done[n]? = some response)
    (hcall : (call b n r.event).poll c now =
      (.finished (.reply response.reply),
        (c'.dropWaiter? (some (2 * n + 1))).dropWaiter (2 * n))) (dial : Dial) :
    ∃ conn', Inv (s.step (.poll id now dial)) (some conn') messages done back b' ∧
      conn'.outbound = c'.outbound ∧
      (s.step (.poll id now dial)).replies = s.replies ++ [(id, response.reply)] := by
  have hrunning := h.running_of_sent hmem hn
  have hpoll := h.poll_finished hconn hmem hrunning hcall dial
  let x : Exchange := (c'.exchange.cancel (2 * n + 1)).cancel (2 * n)
  have hdropped :
      Connection.Line { c' with exchange := x } messages done back s.read s.outgoing b' :=
    hline.keeps ((keeps_cancel _ _).trans (keeps_cancel _ _))
  rw [step_poll_finished hpoll (Client.isUnderWay_of_filter rfl)]
  refine ⟨{ c' with exchange := x }, ?_, rfl, rfl⟩
  exact { h with
    toPosted := by
      subst hconn
      refine h.toPosted.ends hpoll rfl rfl ?_ ⟨rfl, h.lone.stored, ?_⟩ (fun hnone => by cases hnone)
      · exact h.shares.finish h.orderly.numbers hmem hrunning h.lone.connections _
      · rintro conn ⟨⟩
        exact hdropped.calm.isOpen
    line := fun _ => hdropped
    requests := fun p hp => h.stands_others hn hforwards.others hp
    replies := by
      intro p hp
      rcases List.mem_append.mp hp with hp | hp
      · exact h.replies_of_forwards hforwards p hp
      · obtain rfl := List.mem_singleton.mp hp
        exact ⟨n, response, hn, hrest, hdone, rfl⟩
    ended := by
      intro id' hid'
      rw [List.map_append, List.mem_append]
      by_cases heq : id' = id
      · subst heq
        exact .inr (.inr List.mem_cons_self)
      · rcases h.ended id' hid' with hmem' | hmem'
        · obtain ⟨p, hp, rfl⟩ := List.mem_map.mp hmem'
          exact .inl (List.mem_map_of_mem (List.mem_filter.mpr ⟨hp, by simpa using heq⟩))
        · exact .inr (.inl hmem') }

/-- A poll of a request that was sent. If its message is written and its response was handed over it
ends, and if its message is first in line as much of it is written as there is room for. -/
theorem Inv.poll_sent (hmem : (id, r) ∈ s.client.requests) (hn : s.sent[n]? = some id) (now : Nat)
    (dial : Dial) :
    ∃ c conn' b', conn? = some c ∧
      Inv (s.step (.poll id now dial)) (some conn') messages done back b' ∧
      (∀ response, b.rest? n = none → done[n]? = some response →
        (s.step (.poll id now dial)).replies = s.replies ++ [(id, response.reply)]) ∧
      ∀ left, n = b.written → b.rest? n = some left →
        conn'.outbound.unread = c.outbound.unread ++ left.take (c.outbound.room left.length) := by
  obtain ⟨e, he, -⟩ := h.message hn
  obtain ⟨c, hconn⟩ := h.exists_connection (List.ne_nil_of_mem (List.mem_of_getElem? he))
  obtain ⟨c', b', hline, hforwards, hcall⟩ :=
    (h.line_of_some hconn).poll (h.event_of_sent hmem hn) now
  rcases hcall with ⟨response, hrest, hdone, hcall⟩ | ⟨hnone, hcall⟩
  · obtain ⟨conn', hinv, houtbound, hreplies⟩ :=
      h.finishes hconn hmem hn hline hforwards hrest hdone hcall dial
    refine ⟨c, conn', b', hconn, hinv, ?_, houtbound ▸ hforwards.fills⟩
    intro other _ hother
    obtain rfl := Option.some.inj (hdone.symm.trans hother)
    exact hreplies
  · refine ⟨c, c', b', hconn, h.goesOn hconn hmem hn hline hforwards hcall dial, ?_,
      hforwards.fills⟩
    intro response hrest hdone
    rw [hnone (hforwards.written hrest)] at hdone
    cases hdone

theorem Inv.poll (id now : Nat) (hdial : ∀ failure, dial ≠ .failed failure) :
    ∃ conn?' messages' b', Inv (s.step (.poll id now dial)) conn?' messages' done back b' := by
  cases hlookup : s.client.requests.lookup id with
  | none =>
    have hpoll : s.client.poll now dial id = (.pending, s.client) := by rw [Client.poll, hlookup]
    rw [step_poll_silent hpoll rfl]
    exact ⟨_, _, _, h⟩
  | some r =>
    have hmem := mem_of_lookup hlookup
    rcases (h.requests _ hmem).2 with ⟨hidle, -⟩ | ⟨n, hn, -⟩
    · rcases Client.waits_or_sends h.shares h.orderly.numbers h.mode h.lone h.unlimited hmem hidle
        hdial with hwaits | ⟨capacity, hsends⟩
      · exact ⟨_, _, _, h.waits hmem hidle hwaits⟩
      · obtain ⟨c', e, b', hinv, -⟩ := h.sends hmem hidle hsends
        exact ⟨_, _, _, hinv⟩
    · obtain ⟨c, conn', b', -, hinv, -⟩ := h.poll_sent hmem hn now dial
      exact ⟨_, _, _, hinv⟩

/-! ### Runs -/

theorem Inv.step {event : Event} (hfair : s.Fair event) (hprompt : s.Prompt event) :
    ∃ conn?' messages' done' back' b', Inv (s.step event) conn?' messages' done' back' b' := by
  cases event with
  | begin event payload => exact ⟨_, _, _, _, _, h.begin hfair⟩
  | poll id now dial =>
    obtain ⟨conn?', messages', b', hinv⟩ := h.poll id now hfair
    exact ⟨_, _, _, _, _, hinv⟩
  | peerReads count =>
    obtain ⟨conn?', hinv⟩ := h.peerReads count
    exact ⟨_, _, _, _, _, hinv⟩
  | respond response => exact ⟨_, _, _, _, _, h.respond hfair⟩
  | peerWrites count =>
    obtain ⟨conn?', hinv⟩ := h.peerWrites count
    exact ⟨_, _, _, _, _, hinv⟩
  | reader =>
    obtain ⟨conn?', done', back', hinv⟩ := h.reader hprompt
    exact ⟨_, _, _, _, _, hinv⟩

end

theorem Inv.run {events : List Event} (h : Inv s conn? messages done back b)
    (hfair : Along Fair s events) (hprompt : Along Prompt s events) :
    ∃ conn?' messages' done' back' b', Inv (s.run events) conn?' messages' done' back' b' := by
  induction events generalizing s conn? messages done back b with
  | nil => exact ⟨_, _, _, _, _, h⟩
  | cons event events ih =>
    obtain ⟨conn?', messages', done', back', b', h'⟩ := h.step hfair.1 hprompt.1
    exact ih h' hfair.2 hprompt.2

end Service

end EnvelopeClient
