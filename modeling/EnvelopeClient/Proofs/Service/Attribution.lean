import EnvelopeClient.Proofs.Service.Invariant

/-!
# Requests get their own answers

However polls, reads and writes of the peer and steps of the reader are mixed, a request that ends
has got the response to its own message, and once every response was processed every request that is
polled ends (`answers_attributed`). Where the connection has no room for a message, polling the
request whose message is first in line goes on writing it.

That takes `Service.Prompt`. A request that has been given its reply listens for error messages
until it is polled; one that comes before that is given to it and not to the request it answers,
which then waits in vain (`error_swallowed`).
-/

namespace EnvelopeClient

open Json EnvelopeClient.Frame

namespace Service

variable {s : Service} {conn? : Option Connection} {messages : List Envelope}
  {done back : List Response} {b : Backlog}

/-- Whoever has ended has got the response to its own message. -/
theorem Inv.own (h : Inv s conn? messages done back b) {p : Nat × Reply} (hp : p ∈ s.replies) :
    s.Own p.1 p.2 := by
  obtain ⟨n, response, hn, -, hresponse, hreply⟩ := h.replies p hp
  refine ⟨n, response, hn, ?_, hreply⟩
  rw [h.responses]
  exact getElem?_append_of_some hresponse back

/-- If every response was processed, every request that was sent has been given its response. -/
theorem Inv.done_of_idle (h : Inv s conn? messages done back b) (hidle : s.Idle) :
    done = s.responses := by
  have hback : back = [] := by
    cases conn? with
    | none => exact (h.line none).back_eq_nil hidle.outgoing rfl rfl
    | some c =>
      have hmem : c ∈ s.client.connections := by simp [h.lone.connections]
      exact (h.line none).back_eq_nil hidle.outgoing (hidle.inbound c hmem) (hidle.taken c hmem)
  rw [h.responses, hback, List.append_nil]

/-- If no message is left that is still to be written, nothing is left of any. -/
theorem Inv.rests_of_written (h : Inv s conn? messages done back b) (hwritten : s.Written) :
    b.rests = [] :=
  (h.line none).writes.rests_eq_nil ((h.written_iff none).mp hwritten)

/-- Polling it then ends it, unless it has ended before. -/
theorem Inv.ends_of_idle (h : Inv s conn? messages done back b) (hidle : s.Idle) {id : Nat}
    (hid : id ∈ s.sent) (now : Nat) (dial : Dial) :
    ∃ reply, s.Own id reply ∧ (id, reply) ∈ (s.step (.poll id now dial)).replies := by
  obtain ⟨n, hn⟩ := List.mem_iff_getElem?.mp hid
  have hlt : n < s.responses.length := hidle.answered ▸ (List.getElem?_eq_some_iff.mp hn).1
  obtain ⟨response, hresponse⟩ : ∃ response, s.responses[n]? = some response :=
    ⟨_, List.getElem?_eq_getElem hlt⟩
  have hdone := hresponse
  rw [← h.done_of_idle hidle] at hdone
  rcases h.ended id (h.lt_of_sent hid) with hmem | hmem
  · obtain ⟨⟨id', r⟩, hp, rfl⟩ := List.mem_map.mp hmem
    obtain ⟨c, conn', b', -, -, hreplies, -⟩ := h.poll_sent hp hn now dial
    have hrest : b.rest? n = none := Backlog.rest?_of_nil (h.rests_of_written hidle.written)
    refine ⟨_, ⟨n, _, hn, hresponse, rfl⟩, ?_⟩
    rw [hreplies response hrest hdone]
    exact List.mem_append_right _ List.mem_cons_self
  · obtain ⟨⟨id', reply⟩, hp, rfl⟩ := List.mem_map.mp hmem
    refine ⟨reply, h.own hp, ?_⟩
    rw [Service.step]
    cases (s.client.poll now dial id').1 with
    | pending => exact hp
    | finished => exact List.mem_append_left _ hp

/-- The request whose message is first in line goes on writing it when it is polled. -/
theorem Inv.first_writes (h : Inv s conn? messages done back b) {left : List UInt8}
    (hrest : b.rest? b.written = some left) :
    ∃ id ∈ s.sent, ∀ now dial, ∀ c ∈ s.client.connections,
      (s.step (.poll id now dial)).client.unread =
        s.client.unread ++ left.take (c.outbound.room left.length) := by
  have hlt : b.written < s.sent.length := by
    by_contra hle
    have hlength := (h.line none).writes.length
    rw [h.length] at hlength
    rw [Backlog.rest?_of_length_le (by omega)] at hrest
    cases hrest
  have hn := List.getElem?_eq_getElem hlt
  -- it has not ended, as whoever has ended has written its message
  have hmem : s.sent[b.written] ∈ s.client.requests.map Prod.fst := by
    refine (h.ended _ (h.lt_of_sent (List.getElem_mem hlt))).resolve_right ?_
    intro hmem
    obtain ⟨p, hp, heq⟩ := List.mem_map.mp hmem
    obtain ⟨m, response, hm, hnone, -⟩ := h.replies p hp
    obtain rfl : m = b.written := h.sent_inj (heq ▸ hm) hn
    cases hrest.symm.trans hnone
  obtain ⟨⟨id, r⟩, hp, heq⟩ := List.mem_map.mp hmem
  obtain rfl : id = s.sent[b.written] := heq
  refine ⟨_, List.getElem_mem hlt, ?_⟩
  intro now dial c hc
  obtain ⟨c', conn', b', hconn, hinv, -, hfills⟩ := h.poll_sent hp hn now dial
  rw [h.lone.connections, hconn] at hc
  obtain rfl := List.mem_singleton.mp hc
  rw [hinv.unread_eq none, h.unread_eq none, hconn]
  exact hfills left rfl hrest

/-- As long as a request is not sent, there is one that is sent when it is polled. -/
theorem Inv.exists_sent (h : Inv s conn? messages done back b)
    (hunsent : ∃ id < s.asked.length, id ∉ s.sent) :
    ∃ id ∉ s.sent, ∀ now capacity,
      (s.step (.poll id now (.accepted capacity))).sent = s.sent ++ [id] := by
  obtain ⟨id, hid, hnot⟩ := hunsent
  have hmem : id ∈ s.client.requests.map Prod.fst := by
    refine (h.ended id hid).resolve_right ?_
    intro hmem
    obtain ⟨p, hp, rfl⟩ := List.mem_map.mp hmem
    obtain ⟨n, response, hn, -⟩ := h.replies p hp
    exact hnot (List.mem_of_getElem? hn)
  obtain ⟨p, hp, rfl⟩ := List.mem_map.mp hmem
  have hidle : p.2.Idle := by
    rcases (h.requests p hp).2 with ⟨hidle, -⟩ | ⟨n, hn, -⟩
    · exact hidle
    · exact absurd (List.mem_of_getElem? hn) hnot
  obtain ⟨id, r, hmem, hidle, hsends⟩ := Client.exists_sends h.shares h.orderly.numbers h.mode h.lone
    h.unlimited ⟨p, hp, hidle⟩
  refine ⟨id, h.unsent_of_idle hmem hidle, ?_⟩
  intro now capacity
  obtain ⟨c', e, b', -, heq⟩ := h.sends hmem hidle (hsends now capacity)
  exact heq

/-- Every request gets the answer to its own message, as long as no error message comes while an
unfinished request has been given its reply.

Whatever is asked, whatever room the connection has, and however polls, reads and writes of the peer
and steps of the reader are mixed: the peer gets the messages one by one in the order in which the
requests were sent; a request that ends has got the response to its message, the data of a reply or
the failure of an error message; once all messages were written and all responses processed,
everybody who was sent ends when polled; and as long as a message is left to be written or somebody
to be sent, there is a request that goes on with it when polled. -/
theorem answers_attributed {config : Config} (hmode : config.mode = .shared)
    (hlimit : config.timeouts.request? = none) {events : List Event}
    (hfair : Along Fair (start config) events) (hprompt : Along Prompt (start config) events) :
    let s := (start config).run events
    s.Transmits ∧
    (∀ p ∈ s.replies, s.Own p.1 p.2) ∧
    (s.Idle → ∀ id ∈ s.sent, ∀ now dial,
      ∃ reply, s.Own id reply ∧ (id, reply) ∈ (s.step (.poll id now dial)).replies) ∧
    ((∃ id < s.asked.length, id ∉ s.sent) →
      ∃ id ∉ s.sent, ∀ now capacity,
        (s.step (.poll id now (.accepted capacity))).sent = s.sent ++ [id]) := by
  intro s
  obtain ⟨conn?, messages, done, back, b, h⟩ := (inv_start hmode hlimit).run hfair hprompt
  refine ⟨?_, fun p hp => h.own hp, ?_, h.exists_sent⟩
  · exact h.transmits (h.line none).writes (h.line none).room fun left hrest => h.first_writes hrest
  · intro hidle id hid now dial
    exact h.ends_of_idle hidle hid now dial

/-- A response in the text its message is printed in. -/
def printed (event : String) (refuses : Bool) (data : Value)
    (h : Fits defaultLimit ([], ⟨if refuses then Envelope.errorEvent else event, data⟩)) : Response :=
  ⟨refuses, data, h.piece⟩

theorem fits_printed {event : String} {refuses : Bool} {data : Value}
    (h : Fits defaultLimit ([], ⟨if refuses then Envelope.errorEvent else event, data⟩)) :
    (printed event refuses data h).Fits event where
  frame := Frame.ofDocument_document _
  short := by
    have hshort := h.short
    rwa [← List.length_append] at hshort

theorem fits_ten : Fits defaultLimit ([], ⟨"a", .int 10⟩) :=
  ⟨blank_nil, ⟨rfl, rfl, by decide⟩, by decide⟩

theorem fits_no : Fits defaultLimit ([], ⟨Envelope.errorEvent, .string "no"⟩) :=
  ⟨blank_nil, ⟨trivial, rfl, by decide⟩, by decide⟩

/-- Two requests are sent and answered, the second by an error message, and the reader has taken the
first response. -/
def answered : List Event :=
  [.begin "a" (.int 1), .begin "b" (.int 2), .poll 0 0 (.accepted none), .poll 1 0 .waiting,
    .respond (printed "a" false (.int 10) fits_ten),
    .respond (printed "b" true (.string "no") fits_no),
    .peerReads 100, .peerWrites 100, .reader, .reader]

/-- A client whose requests share a connection and have no deadline. -/
def sharing : Config := ⟨"socket", .shared, .none⟩

theorem fair_answered (last : List Event) (h : Along Fair ((start sharing).run answered) last) :
    Along Fair (start sharing) (answered ++ last) := by
  have hnot : ∀ dial : Dial, dial = .accepted none ∨ dial = .waiting →
      ∀ failure, dial ≠ .failed failure := by
    rintro dial (rfl | rfl) failure heq <;> cases heq
  refine ⟨⟨by decide, by decide, _, rfl⟩, ⟨by decide, by decide, _, rfl⟩, hnot _ (.inl rfl),
    hnot _ (.inr rfl), ⟨0, "a", .int 1, ?_, rfl, fits_printed _⟩,
    ⟨1, "b", .int 2, ?_, rfl, fits_printed _⟩, trivial, trivial, trivial, trivial, h⟩
  · decide +kernel
  · decide +kernel

/-- The first request is polled before the error message is taken, and both get their answers. -/
theorem answers_attributed_polled :
    let s := (start sharing).run (answered ++ [.poll 0 0 .waiting, .reader])
    s.sent = [0, 1] ∧
      ∃ reply, s.Own 1 reply ∧ (1, reply) ∈ (s.step (.poll 1 0 .waiting)).replies := by
  intro s
  have hfair : Along Fair (start sharing) (answered ++ [.poll 0 0 .waiting, .reader]) := by
    refine fair_answered _ ⟨?_, trivial, trivial⟩
    intro failure heq
    cases heq
  have hprompt : Along Prompt (start sharing) (answered ++ [.poll 0 0 .waiting, .reader]) := by
    decide +kernel
  obtain ⟨-, -, hends, -⟩ := answers_attributed rfl rfl hfair hprompt
  have hsent : s.sent = [0, 1] := by decide +kernel
  have hidle : s.Idle := by
    refine ⟨?_, ?_, ?_, ?_, ?_⟩ <;> decide +kernel
  exact ⟨hsent, hends hidle 1 (by decide +kernel) 0 .waiting⟩

/-- If the error message is taken first, the first request, which has been given its reply, gets it,
and the second is left waiting although every response was processed. -/
theorem error_swallowed :
    ¬∀ (config : Config) (events : List Event), config.mode = .shared →
      config.timeouts.request? = none → Along Fair (start config) events →
        let s := (start config).run events
        s.Idle → ∀ id ∈ s.sent, ∀ now dial,
          ∃ reply, s.Own id reply ∧ (id, reply) ∈ (s.step (.poll id now dial)).replies := by
  intro hclaim
  have hfair : Along Fair (start sharing) (answered ++ [.reader, .poll 0 0 .waiting]) := by
    refine fair_answered _ ⟨trivial, ?_, trivial⟩
    intro failure heq
    cases heq
  have hidle : ((start sharing).run (answered ++ [.reader, .poll 0 0 .waiting])).Idle := by
    refine ⟨?_, ?_, ?_, ?_, ?_⟩ <;> decide +kernel
  obtain ⟨reply, -, hmem⟩ := hclaim sharing _ rfl rfl hfair hidle 1 (by decide +kernel) 0 .waiting
  have hended : (((start sharing).run (answered ++ [.reader, .poll 0 0 .waiting])).step
      (.poll 1 0 .waiting)).replies.map Prod.fst = [0] := by
    decide +kernel
  have hone := List.mem_map_of_mem (f := Prod.fst) hmem
  rw [hended] at hone
  simp at hone

end Service

end EnvelopeClient
