import EnvelopeClient.Proofs.Connection.Transport
import EnvelopeClient.Proofs.Mirror.Flight

/-!
# What ties messages to bytes and requests

`Mirror.Inv` says that the bytes in the pipes are those of the messages on their way, and that every
request has come as far as its message. There is nothing in a message that says which request it
answers, so the invariant is about order: waiters, turns at the write half and messages on the wire
stand in the order in which the requests were made. Each event keeps it: `Inv.peerReads`,
`Inv.peerWrites`, `Inv.reader`, `Inv.poll` and `Inv.request`.
-/

namespace EnvelopeClient

open Json EnvelopeClient.Frame

namespace Mirror

/-- What holds behind any events: the bytes in the pipes are those of the messages that are on their
way, and every request has come as far as its message. -/
structure Inv (capacity : Option Nat) (s : Mirror) (f : Flight) : Prop where
  calm : s.connection.Calm
  capacity : s.connection.outbound.capacity = capacity
  serves : s.connection.exchange.Serves f.all f.delivered
  fits : ∀ e ∈ f.all, Fits defaultLimit ([], e)
  reading : ∃ intake readable, s.connection.reader = .running intake readable false
  turns : s.connection.turns = List.range' f.written f.unsent.length
  nextTurn : s.connection.nextTurn = f.all.length
  length : s.requests.length = f.all.length
  requests : ∀ {i r e}, s.requests[i]? = some r → f.all[i]? = some e →
    r.event = e.event ∧ r.payload.toValue = .ok e.data ∧ f.Stands i e r.poll
  outbound : s.held ++ s.connection.outbound.unread = texts f.sent ++ f.part
  part : f.unsent = [] → f.part = []
  inbound : s.connection.taken ++ (s.connection.inbound.unread ++ s.outgoing) = texts f.back

variable {capacity : Option Nat} {s : Mirror} {f : Flight}

theorem inv_start (peer : String) (capacity : Option Nat) :
    Inv capacity (start peer capacity) ⟨[], [], [], [], []⟩ where
  calm := ⟨rfl, rfl, rfl, ⟨rfl, rfl, rfl, rfl⟩, rfl, rfl⟩
  capacity := rfl
  serves := ⟨Exchange.sound_opened, rfl, fun hi => by simp [Flight.all] at hi,
    fun hi => by simp [Flight.all] at hi, fun _ hlt => absurd hlt (Nat.not_lt_zero _)⟩
  fits := by simp [Flight.all]
  reading := ⟨_, _, rfl⟩
  turns := rfl
  nextTurn := rfl
  length := rfl
  requests hi := by simp [start] at hi
  outbound := rfl
  part _ := rfl
  inbound := rfl

/-- There is a message for every request. -/
theorem Inv.message (h : Inv capacity s f) {i : Nat} {r : Request} (hr : s.requests[i]? = some r) :
    ∃ e, f.all[i]? = some e ∧ r.event = e.event ∧ r.payload.toValue = .ok e.data ∧
      f.Stands i e r.poll := by
  have hlt : i < f.all.length := h.length ▸ (List.getElem?_eq_some_iff.mp hr).1
  exact ⟨f.all[i], List.getElem?_eq_getElem hlt, h.requests hr (List.getElem?_eq_getElem hlt)⟩

/-- Requests stand where they stood as long as only deliveries happen. -/
theorem Inv.requests_mono (h : Inv capacity s f) {f' : Flight} (hall : f'.all = f.all)
    (hwritten : f'.written = f.written) (hpart : f'.part = f.part)
    (hdelivered : f.delivered ≤ f'.delivered) {i : Nat} {r : Request} {e : Envelope}
    (hr : s.requests[i]? = some r) (he : f'.all[i]? = some e) :
    r.event = e.event ∧ r.payload.toValue = .ok e.data ∧ f'.Stands i e r.poll := by
  rw [hall] at he
  obtain ⟨hevent, hpayload, hstands⟩ := h.requests hr he
  exact ⟨hevent, hpayload, hstands.mono hwritten hpart hdelivered⟩

theorem Inv.fits_back (h : Inv capacity s f) : ∀ e ∈ f.back, Fits defaultLimit ([], e) := by
  intro e he
  exact h.fits e (by simp [Flight.all, he])

theorem Inv.fits_sent (h : Inv capacity s f) : ∀ e ∈ f.sent, Fits defaultLimit ([], e) := by
  intro e he
  exact h.fits e (by simp [Flight.all, he])

/-- Of the first message that is not wholly written there is something left. -/
theorem Inv.writing (h : Inv capacity s f) {e : Envelope} {rest : List Envelope}
    (hunsent : f.unsent = e :: rest) : ∃ left, f.part ++ left = e.toBytes ∧ left ≠ [] := by
  -- its request is neither waiting for its turn nor for its answer
  have he := Flight.all_written hunsent
  have hlt : f.written < s.requests.length := h.length ▸ (List.getElem?_eq_some_iff.mp he).1
  obtain ⟨-, -, hstands⟩ := h.requests (List.getElem?_eq_getElem hlt) he
  have hle := f.delivered_le_written
  cases hpoll : s.requests[f.written].poll with
  | pending call =>
    rw [hpoll] at hstands
    cases hstands with
    | waiting h => omega
    | writing _ htext hleft => exact ⟨_, htext, hleft⟩
    | hearing h => omega
  | finished outcome =>
    rw [hpoll] at hstands
    cases hstands with
    | finished h => omega

/-! ### The peer -/

theorem flatMap_echo (messages : List Envelope) :
    (messages.map Frame.envelope).flatMap echo = texts messages := by
  rw [texts, List.flatMap_map]
  rfl

/-- What the peer decodes is wholly written, and goes back as it came. -/
theorem Inv.peerReads (h : Inv capacity s f) (count : Nat) :
    ∃ f', Inv capacity (s.peerReads count) f' := by
  have hbytes : (s.held ++ s.connection.outbound.unread.take count) ++
      s.connection.outbound.unread.drop count = texts f.sent ++ f.part := by
    rw [List.append_assoc, List.take_append_drop, h.outbound]
  -- behind the messages on their way out may come a part of one, which is no message yet
  obtain ⟨mirrored, kept, held, hdrain, hsplit, hrest⟩ : ∃ mirrored kept held,
      drain defaultLimit (s.held ++ s.connection.outbound.unread.take count) =
        (mirrored.map .envelope, held) ∧ f.sent = mirrored ++ kept ∧
      held ++ s.connection.outbound.unread.drop count = texts kept ++ f.part := by
    cases hunsent : f.unsent with
    | nil =>
      rw [h.part hunsent, List.append_nil] at hbytes
      obtain ⟨mirrored, kept, held, hdrain, hsplit, hrest⟩ := drain_texts h.fits_sent hbytes
      exact ⟨mirrored, kept, held, hdrain, hsplit, by rw [hrest, h.part hunsent, List.append_nil]⟩
    | cons e rest =>
      obtain ⟨left, htext, hleft⟩ := h.writing hunsent
      have hfits : ∀ m ∈ f.sent ++ [e], Fits defaultLimit ([], m) := by
        intro m hm
        rcases List.mem_append.mp hm with hm | hm
        · exact h.fits_sent m hm
        · exact h.fits m (by simp [Flight.all, hunsent, List.mem_singleton.mp hm])
      exact drain_texts_part hfits htext hleft hbytes
  have hall := Flight.all_mirror hsplit
  have hwritten := Flight.written_mirror hsplit
  have hback : s.connection.taken ++ (s.connection.inbound.unread ++ (s.outgoing ++ texts mirrored)) =
      texts (f.back ++ mirrored) := by
    rw [texts_append, ← h.inbound, List.append_assoc, List.append_assoc]
  refine ⟨f.mirror mirrored kept, ?_⟩
  rw [Mirror.peerReads, hdrain]
  exact { h with
    calm := ⟨h.calm.isOpen, h.calm.cancelled, h.calm.released,
      ⟨h.calm.outbound.ended, h.calm.outbound.abandoned, h.calm.outbound.writeTrap,
        h.calm.outbound.flushTrap⟩, h.calm.trap, h.calm.ended⟩
    serves := hall ▸ h.serves
    fits := hall ▸ h.fits
    turns := hwritten ▸ h.turns
    nextTurn := hall ▸ h.nextTurn
    length := hall ▸ h.length
    requests := h.requests_mono hall hwritten rfl (Nat.le_refl _)
    outbound := hrest
    inbound := by
      simp only [flatMap_echo]
      exact hback }

/-- What the peer writes is on its way back still. -/
theorem Inv.peerWrites (h : Inv capacity s f) (count : Nat) :
    Inv capacity (s.step (.peerWrites count)) f := by
  have hbytes := h.inbound
  rw [← List.take_append_drop count s.outgoing, ← List.append_assoc s.connection.inbound.unread]
    at hbytes
  exact { h with
    calm := ⟨h.calm.isOpen, h.calm.cancelled, h.calm.released, h.calm.outbound, h.calm.trap,
      h.calm.ended⟩
    inbound := hbytes }

/-! ### The reader -/

/-- Whatever the reader takes off what it holds is the next message, and somebody waits for it. -/
theorem Inv.frame (h : Inv capacity s f) {frame : Frame} {rest : List UInt8}
    (hdecode : decode defaultLimit s.connection.taken = (some frame, rest)) :
    ∃ e left, frame = .envelope e ∧ f.back = e :: left ∧
      (s.connection.exchange.deliver e).1 = true ∧
      (s.connection.exchange.deliver e).2.Serves f.all (f.delivered + 1) ∧
      rest ++ (s.connection.inbound.unread ++ s.outgoing) = texts left := by
  -- what was taken is the front of the messages on their way back
  rcases decode_texts h.fits_back h.inbound with hnone | ⟨e, rest', left, hback, hsome, hrest⟩
  · rw [hdecode] at hnone
    cases hnone
  · rw [hdecode] at hsome
    cases hsome
    obtain ⟨hhanded, hserves⟩ := h.serves.deliver (Flight.all_delivered hback)
    exact ⟨e, left, rfl, hback, hhanded, hserves, hrest⟩

/-- A message that is taken off is given to its waiter. -/
theorem Inv.dispatch (h : Inv capacity s f) {frame : Frame} {intake : Intake}
    (hdecode : decode defaultLimit s.connection.taken = (some frame, intake.bytes)) :
    ∃ f', Inv capacity { s with connection :=
      { s.connection with reader := .running intake true false }.dispatch frame } f' := by
  obtain ⟨e, left, rfl, hback, -, hserves, hrest⟩ := h.frame hdecode
  have hall := Flight.all_deliver hback
  have hwritten := Flight.written_deliver hback
  have hdelivered := f.delivered_deliver e left
  refine ⟨f.deliver e left, ?_⟩
  exact { h with
    calm := ⟨(Exchange.status_deliver _ e).trans h.calm.isOpen, h.calm.cancelled,
      h.calm.released, h.calm.outbound, h.calm.trap, h.calm.ended⟩
    serves := by
      rw [hall, hdelivered]
      exact hserves
    fits := hall ▸ h.fits
    reading := ⟨_, _, rfl⟩
    turns := hwritten ▸ h.turns
    nextTurn := hall ▸ h.nextTurn
    length := hall ▸ h.length
    requests := h.requests_mono hall hwritten rfl (by omega)
    inbound := hrest }

/-- Taking bytes, or finding that there is no whole message, moves no message. -/
theorem Inv.take (h : Inv capacity s f) {c : Connection} {inbound : Inbound} {intake : Intake}
    {readable : Bool}
    (hc : c = { s.connection with inbound, reader := .running intake readable false })
    (htrap : inbound.trap = none) (hended : inbound.ended = false)
    (hbytes : intake.bytes ++ inbound.unread = s.connection.taken ++ s.connection.inbound.unread) :
    Inv capacity { s with connection := c } f := by
  subst hc
  exact { h with
    calm := ⟨h.calm.isOpen, h.calm.cancelled, h.calm.released, h.calm.outbound, htrap, hended⟩
    reading := ⟨_, _, rfl⟩
    inbound := by
      rw [← h.inbound, ← List.append_assoc, ← List.append_assoc]
      exact congrArg (· ++ s.outgoing) hbytes }

theorem Inv.reader (h : Inv capacity s f) : ∃ f', Inv capacity (s.step .reader) f' := by
  obtain ⟨intake, readable, hreader⟩ := h.reading
  have htaken : s.connection.taken = intake.bytes := by rw [Connection.taken, hreader]
  rw [step]
  cases hstep : s.connection.readerStep with
  | none => exact ⟨f, h⟩
  | some c =>
    rcases Connection.readerStep_cases h.calm hreader hstep with
      ⟨-, n, intake', -, hbytes, hc⟩ | ⟨-, intake', -, hdecode, hc⟩ |
      ⟨-, frame, intake', -, hdecode, hc⟩
    · -- bytes go from the pipe to what the reader has taken
      refine ⟨f, h.take hc h.calm.trap h.calm.ended ?_⟩
      rw [hbytes, htaken, List.append_assoc, List.take_append_drop]
    · -- no message is whole, and nothing of what was taken is dropped
      refine ⟨f, h.take hc h.calm.trap h.calm.ended ?_⟩
      rcases decode_texts h.fits_back h.inbound with hnone | ⟨e, rest, left, -, hsome, -⟩
      · rw [htaken, hdecode] at hnone
        rw [htaken, (Prod.mk.inj hnone).2]
      · rw [htaken, hdecode] at hsome
        cases hsome
    · rw [← htaken] at hdecode
      rw [hc]
      exact h.dispatch hdecode

/-! ### Polling a request -/

theorem step_poll {i : Nat} {r : Request} {call : Call} (hr : s.requests[i]? = some r)
    (hcall : r.poll = .pending call) (now : Nat) :
    s.step (.poll now i) = { s with
      connection := (call.poll s.connection now).2
      requests := s.requests.set i { r with poll := (call.poll s.connection now).1 } } := by
  obtain ⟨event, payload, poll⟩ := r
  obtain rfl : poll = .pending call := hcall
  rw [step, hr]

/-- A poll that comes to nothing. -/
theorem step_poll_self {i : Nat} {r : Request} {call : Call} (hr : s.requests[i]? = some r)
    (hcall : r.poll = .pending call) {now : Nat}
    (hpoll : call.poll s.connection now = (.pending call, s.connection)) :
    s.step (.poll now i) = s := by
  obtain ⟨hlt, rfl⟩ := List.getElem?_eq_some_iff.mp hr
  rw [step_poll hr hcall, hpoll, ← hcall, List.set_getElem_self]

theorem step_poll_of_finished {i : Nat} {r : Request} {outcome : Outcome}
    (hr : s.requests[i]? = some r) (hpoll : r.poll = .finished outcome) (now : Nat) :
    s.step (.poll now i) = s := by
  obtain ⟨event, payload, poll⟩ := r
  obtain rfl : poll = .finished outcome := hpoll
  rw [step, hr]

theorem step_poll_of_none {i : Nat} (hr : s.requests[i]? = none) (now : Nat) :
    s.step (.poll now i) = s := by
  rw [step, hr]

/-- A wait for a message ends once the message has been given to the waiter. -/
theorem pollReceive_of_serves {c : Connection} {messages : List Envelope} {d i : Nat} {e : Envelope}
    (hserves : c.exchange.Serves messages d) (hgone : c.isGone = false)
    (he : messages[i]? = some e) (now : Nat) :
    Call.pollReceive c now i none true =
      if i < d then (.finished (.reply (.ok e.data)), c.settleWaiter i)
      else (.pending (.receive i none true), c) := by
  rw [Call.pollReceive, Connection.outcome?_of_not_gone hgone, hserves.outcome? he]
  by_cases hd : i < d
  · rw [if_pos hd, if_pos hd]
  · rw [if_neg hd, if_neg hd]
    rfl

theorem Inv.head_turns (h : Inv capacity s f) {e : Envelope} {rest : List Envelope}
    (hunsent : f.unsent = e :: rest) : s.connection.turns.head? = some f.written := by
  rw [h.turns, hunsent]
  rfl

/-- It is nobody else's turn. -/
theorem Inv.head_turns_ne (h : Inv capacity s f) {i : Nat}
    (hi : 0 < f.unsent.length → i ≠ f.written) : s.connection.turns.head? ≠ some i := by
  rw [h.turns, List.head?_range']
  split
  · simp
  · next hpos => simpa using (hi (Nat.pos_of_ne_zero hpos)).symm

/-- The requests behind a poll of one of them. -/
theorem Inv.requests_set (h : Inv capacity s f) (f' : Flight) {i : Nat} {r : Request} {e : Envelope}
    {poll : Poll} (hall : f'.all = f.all) (hr : s.requests[i]? = some r) (he : f.all[i]? = some e)
    (hpoll : f'.Stands i e poll)
    (hothers : ∀ {j e poll}, j ≠ i → f.Stands j e poll → f'.Stands j e poll) {j : Nat}
    {r' : Request} {e' : Envelope} (hr' : (s.requests.set i { r with poll })[j]? = some r')
    (he' : f'.all[j]? = some e') :
    r'.event = e'.event ∧ r'.payload.toValue = .ok e'.data ∧ f'.Stands j e' r'.poll := by
  rw [hall] at he'
  by_cases hij : i = j
  · subst hij
    obtain rfl := Option.some.inj (he.symm.trans he')
    rw [List.getElem?_set_self (List.getElem?_eq_some_iff.mp hr).1] at hr'
    cases hr'
    obtain ⟨hevent, hpayload, -⟩ := h.requests hr he
    exact ⟨hevent, hpayload, hpoll⟩
  · rw [List.getElem?_set_ne hij] at hr'
    obtain ⟨hevent, hpayload, hstands⟩ := h.requests hr' he'
    exact ⟨hevent, hpayload, hothers (Ne.symm hij) hstands⟩

/-- What polling a request changes: nothing but what is written, and only in its turn. -/
structure Polled (i : Nat) (s s' : Mirror) : Prop where
  held : s'.held = s.held
  outgoing : s'.outgoing = s.outgoing
  inbound : s'.connection.inbound = s.connection.inbound
  taken : s'.connection.taken = s.connection.taken
  unread : ∃ more, s'.connection.outbound.unread = s.connection.outbound.unread ++ more ∧
    (s.connection.turns.head? ≠ some i → more = []) ∧
    (more = [] → s'.connection.turns = s.connection.turns) ∧
    (s.connection.turns.head? = some i → s.connection.outbound.capacity ≠ some 0 →
      s.connection.outbound.unread = [] → more ≠ [])

theorem polled_self {i : Nat} (hturn : s.connection.turns.head? ≠ some i) : Polled i s s where
  held := rfl
  outgoing := rfl
  inbound := rfl
  taken := rfl
  unread := by
    refine ⟨[], (List.append_nil _).symm, fun _ => rfl, fun _ => rfl, ?_⟩
    intro hturn'
    exact absurd hturn' hturn

/-- A request in its turn writes a part of its message. -/
theorem Inv.poll_part (h : Inv capacity s f) {r : Request} {e : Envelope} {rest : List Envelope}
    {left : List UInt8} (hr : s.requests[f.written]? = some r) (hunsent : f.unsent = e :: rest)
    (hpoll : r.poll = .pending (.request f.written ⟨e.event, f.written, left⟩))
    (htext : f.part ++ left = e.toBytes)
    (hroom : s.connection.outbound.room left.length < left.length) (now : Nat) :
    (∃ f', Inv capacity (s.step (.poll now f.written)) f') ∧
      Polled f.written s (s.step (.poll now f.written)) := by
  have hsend := Connection.pollSend_part (s := ⟨e.event, f.written, left⟩) h.calm
    (h.head_turns hunsent) hroom
  let n := s.connection.outbound.room left.length
  have hcall : (Call.request f.written ⟨e.event, f.written, left⟩).poll s.connection now =
      (.pending (.request f.written ⟨e.event, f.written, left.drop n⟩),
        { s.connection with outbound := s.connection.outbound.put (left.take n) }) := by
    rw [Call.poll, hsend]
  rw [step_poll hr hpoll, hcall]
  have hwriting : (f.write (left.take n)).Stands f.written e
      (.pending (.request f.written ⟨e.event, f.written, left.drop n⟩)) := by
    refine .writing rfl ?_ ?_
    · show f.part ++ left.take n ++ left.drop n = e.toBytes
      rw [List.append_assoc, List.take_append_drop, htext]
    · rw [Ne, List.drop_eq_nil_iff]
      omega
  refine ⟨⟨f.write (left.take n), ?_⟩, ⟨rfl, rfl, rfl, rfl, left.take n, rfl,
    fun hturn => absurd (h.head_turns hunsent) hturn, fun _ => rfl, ?_⟩⟩
  · have hbytes : s.held ++ (s.connection.outbound.unread ++ left.take n) =
        texts f.sent ++ (f.part ++ left.take n) := by
      rw [← List.append_assoc, h.outbound, List.append_assoc]
    have hopen : f.unsent ≠ [] := by
      rw [hunsent]
      exact List.cons_ne_nil e rest
    exact { h with
      calm := ⟨h.calm.isOpen, h.calm.cancelled, h.calm.released, h.calm.outbound.put _, h.calm.trap,
        h.calm.ended⟩
      length := (List.length_set ..).trans h.length
      requests := h.requests_set (f.write (left.take n)) rfl hr (Flight.all_written hunsent)
        hwriting (Flight.Stands.write _)
      outbound := hbytes
      part := fun hnil => absurd hnil hopen }
  · intro _ hcapacity hempty
    have hpos : 0 < n := Outbound.room_pos hcapacity hempty (by omega)
    rw [Ne, List.take_eq_nil_iff, not_or]
    refine ⟨Nat.ne_of_gt hpos, ?_⟩
    rintro rfl
    simp at hroom

/-- A request that writes the rest of its message goes on to wait for it. -/
theorem Inv.poll_whole (h : Inv capacity s f) {r : Request} {e : Envelope} {rest : List Envelope}
    {left : List UInt8} (hr : s.requests[f.written]? = some r) (hunsent : f.unsent = e :: rest)
    (hpoll : r.poll = .pending (.request f.written ⟨e.event, f.written, left⟩))
    (htext : f.part ++ left = e.toBytes) (hleft : left ≠ [])
    (hroom : left.length ≤ s.connection.outbound.room left.length) (now : Nat) :
    (∃ f', Inv capacity (s.step (.poll now f.written)) f') ∧
      Polled f.written s (s.step (.poll now f.written)) := by
  have hsend := Connection.pollSend_whole (s := ⟨e.event, f.written, left⟩) h.calm
    (h.head_turns hunsent) hleft hroom
  let c : Connection :=
    { s.connection with outbound := s.connection.outbound.put left }.leaveTurns f.written
  have hreceive : Call.pollReceive c now f.written none true =
      (.pending (.receive f.written none true), c) := by
    rw [pollReceive_of_serves (c := c) h.serves h.calm.isGone (Flight.all_written hunsent),
      if_neg (Nat.not_lt_of_le f.delivered_le_written)]
  have hcall : (Call.request f.written ⟨e.event, f.written, left⟩).poll s.connection now =
      (.pending (.receive f.written none true), c) := by
    rw [Call.poll, hsend]
    exact hreceive
  rw [step_poll hr hpoll, hcall]
  -- its turn is over, and the turns of the others stand in the order of their messages
  have hall := Flight.all_finish hunsent
  have hwritten := f.written_finish e rest
  have hturns : s.connection.turns.filter (· ≠ f.written) =
      List.range' (f.finish e rest).written rest.length := by
    rw [h.turns, hunsent, List.length_cons, List.range'_succ, hwritten,
      List.filter_cons_of_neg (by simp), List.filter_eq_self]
    intro turn hturn
    have hle := (List.mem_range'_1.mp hturn).1
    have hne : turn ≠ f.written := by omega
    simpa using hne
  have hbytes : s.held ++ (s.connection.outbound.unread ++ left) = texts (f.sent ++ [e]) ++ [] := by
    rw [← List.append_assoc, h.outbound, texts_append, texts_singleton, ← htext, List.append_assoc,
      List.append_nil]
  refine ⟨⟨f.finish e rest, ?_⟩, ⟨rfl, rfl, rfl, rfl, left, rfl,
    fun hturn => absurd (h.head_turns hunsent) hturn, fun hnil => absurd hnil hleft,
    fun _ _ _ => hleft⟩⟩
  exact { h with
    calm := ⟨h.calm.isOpen, h.calm.cancelled, h.calm.released, h.calm.outbound.put _, h.calm.trap,
      h.calm.ended⟩
    serves := hall ▸ h.serves
    fits := hall ▸ h.fits
    turns := hturns
    nextTurn := hall ▸ h.nextTurn
    length := hall ▸ (List.length_set ..).trans h.length
    requests := h.requests_set (f.finish e rest) hall hr (Flight.all_written hunsent)
      (.hearing (by omega)) (Flight.Stands.finish e rest)
    outbound := hbytes
    part := fun _ => rfl }

/-- A request whose message has been given to its waiter is done. -/
theorem Inv.poll_hearing (h : Inv capacity s f) {i : Nat} {r : Request} {e : Envelope}
    (hr : s.requests[i]? = some r) (he : f.all[i]? = some e)
    (hpoll : r.poll = .pending (.receive i none true)) (hi : i < f.delivered) (now : Nat) :
    s.step (.poll now i) = { s with
      connection := s.connection.settleWaiter i
      requests := s.requests.set i { r with poll := .finished (.reply (.ok e.data)) } } := by
  have hcall : (Call.receive i none true).poll s.connection now =
      (.finished (.reply (.ok e.data)), s.connection.settleWaiter i) := by
    rw [Call.poll, pollReceive_of_serves h.serves h.calm.isGone he, if_pos hi]
  rw [step_poll hr hpoll, hcall]

theorem Inv.settle (h : Inv capacity s f) {i : Nat} {r : Request} {e : Envelope}
    (hr : s.requests[i]? = some r) (he : f.all[i]? = some e) (hi : i < f.delivered) :
    Inv capacity { s with
      connection := s.connection.settleWaiter i
      requests := s.requests.set i { r with poll := .finished (.reply (.ok e.data)) } } f := by
  exact { h with
    calm := ⟨h.calm.isOpen, h.calm.cancelled, h.calm.released, h.calm.outbound, h.calm.trap,
      h.calm.ended⟩
    serves := h.serves.settle hi f.delivered_le_length
    length := (List.length_set ..).trans h.length
    requests := h.requests_set f rfl hr he (.finished hi) fun _ hstands => hstands }

/-- Polling a request keeps the invariant, and only its turn makes it write. -/
theorem Inv.poll (h : Inv capacity s f) (now i : Nat) :
    (∃ f', Inv capacity (s.step (.poll now i)) f') ∧ Polled i s (s.step (.poll now i)) := by
  -- whose turn it is not and who has nothing to take, does nothing
  have hself : s.connection.turns.head? ≠ some i → s.step (.poll now i) = s →
      (∃ f', Inv capacity (s.step (.poll now i)) f') ∧ Polled i s (s.step (.poll now i)) := by
    intro hturn hstep
    rw [hstep]
    exact ⟨⟨f, h⟩, polled_self hturn⟩
  cases hr : s.requests[i]? with
  | none =>
    have hle := List.getElem?_eq_none_iff.mp hr
    rw [h.length, f.length_all] at hle
    exact hself (h.head_turns_ne (by omega)) (step_poll_of_none hr now)
  | some r =>
    obtain ⟨e, he, -, -, hstands⟩ := h.message hr
    have hle := f.delivered_le_written
    cases hpoll : r.poll with
    | finished outcome =>
      rw [hpoll] at hstands
      cases hstands with
      | finished hi =>
        exact hself (h.head_turns_ne (by omega)) (step_poll_of_finished hr hpoll now)
    | pending call =>
      rw [hpoll] at hstands
      cases hstands with
      | waiting hi =>
        have hturn := h.head_turns_ne (i := i) (by omega)
        refine hself hturn (step_poll_self hr hpoll ?_)
        rw [Call.poll, Connection.pollSend_of_other hturn]
      | @writing left hi htext hleft =>
        subst hi
        cases hunsent : f.unsent with
        | nil =>
          have hlt := (List.getElem?_eq_some_iff.mp he).1
          rw [f.length_all, hunsent] at hlt
          exact absurd hlt (Nat.lt_irrefl _)
        | cons first rest =>
          obtain rfl : first = e :=
            Option.some.inj ((Flight.all_written hunsent).symm.trans he)
          rcases Nat.lt_or_ge (s.connection.outbound.room left.length) left.length with
            hroom | hroom
          · exact h.poll_part hr hunsent hpoll htext hroom now
          · exact h.poll_whole hr hunsent hpoll htext hleft hroom now
      | hearing hi =>
        have hturn := h.head_turns_ne (i := i) (by omega)
        by_cases hd : i < f.delivered
        · rw [h.poll_hearing hr he hpoll hd]
          exact ⟨⟨f, h.settle hr he hd⟩, ⟨rfl, rfl, rfl, rfl, (polled_self hturn).unread⟩⟩
        · refine hself hturn (step_poll_self hr hpoll ?_)
          rw [Call.poll, pollReceive_of_serves h.serves h.calm.isGone he, if_neg hd]

/-! ### Making a request -/

/-- The state in which a request waits for its first poll. -/
def asked (s : Mirror) (x : Exchange) (payload : Payload) (e : Envelope) : Mirror :=
  { s with
    connection := { s.connection with
      exchange := x
      turns := s.connection.turns ++ [s.connection.nextTurn]
      nextTurn := s.connection.nextTurn + 1 }
    requests := s.requests ++ [⟨e.event, payload,
      .pending (.request s.requests.length ⟨e.event, s.requests.length, e.toBytes⟩)⟩] }

theorem Inv.asked (h : Inv capacity s f) {payload : Payload} {e : Envelope} {x : Exchange}
    (hpayload : payload.toValue = .ok e.data) (hfits : Fits defaultLimit ([], e))
    (hserves : x.Serves (f.all ++ [e]) f.delivered) (hopen : x.status = .open) :
    Inv capacity (s.asked x payload e) (f.ask e) := by
  have hall := f.all_ask e
  have hturns : s.connection.turns ++ [s.connection.nextTurn] =
      List.range' f.written (f.unsent ++ [e]).length := by
    rw [h.turns, h.nextTurn, f.length_all, List.length_append, List.length_singleton,
      List.range'_1_concat]
  exact { h with
    calm := ⟨hopen, h.calm.cancelled, h.calm.released, h.calm.outbound, h.calm.trap, h.calm.ended⟩
    serves := hall ▸ hserves
    fits := by
      intro e' he'
      rw [hall, List.mem_append, List.mem_singleton] at he'
      rcases he' with he' | rfl
      · exact h.fits e' he'
      · exact hfits
    turns := hturns
    nextTurn := by
      rw [hall, List.length_append, List.length_singleton, ← h.nextTurn]
      rfl
    length := by
      rw [hall, Mirror.asked, List.length_append, List.length_append, h.length]
      rfl
    requests := by
      intro i r e' hr he'
      rw [hall] at he'
      rw [Mirror.asked] at hr
      rcases Exchange.getElem?_concat_cases he' with ⟨rfl, rfl⟩ | ⟨hlt, he'⟩
      · rw [← h.length, List.getElem?_concat_length] at hr
        cases hr
        rw [h.length]
        exact ⟨rfl, hpayload, f.stands_ask _ h.part⟩
      · rw [List.getElem?_append_left (h.length ▸ hlt)] at hr
        obtain ⟨hevent, hpayload, hstands⟩ := h.requests hr he'
        exact ⟨hevent, hpayload, hstands.mono rfl rfl (Nat.le_refl _)⟩
    part := fun hnil => absurd hnil (List.append_ne_nil_of_right_ne_nil _ (List.cons_ne_nil e [])) }

/-- Making a request is to ask and to poll for the first time. -/
theorem Inv.request_eq (h : Inv capacity s f) {now : Nat} {payload : Payload} {e : Envelope}
    {x : Exchange} (hpayload : payload.toValue = .ok e.data)
    (hregister : s.connection.exchange.register e.event = .ok (f.all.length, x))
    (hopen : x.status = .open) :
    s.step (.request now e.event payload) =
      (s.asked x payload e).step (.poll now s.requests.length) := by
  have hbegin : Connection.beginSend { s.connection with exchange := x } e.event payload =
      .ok (⟨e.event, s.requests.length, e.toBytes⟩, (s.asked x payload e).connection) := by
    have hstatus : Connection.status { s.connection with exchange := x } = .open := hopen
    rw [Connection.beginSend, hpayload]
    refine (if_pos hstatus).trans ?_
    simp only [Connection.joinTurns, h.nextTurn, h.length, Mirror.asked]
  have hrequest : s.connection.request now e.event payload =
      (Call.request s.requests.length ⟨e.event, s.requests.length, e.toBytes⟩).poll
        (s.asked x payload e).connection now := by
    rw [Connection.request, Connection.register, hregister]
    simp only [hbegin, h.length]
  rw [step_poll (List.getElem?_concat_length ..) rfl, step, hrequest]
  simp [Mirror.asked]

theorem Inv.request (h : Inv capacity s f) {now : Nat} {event : String} {payload : Payload}
    (htravels : (Event.request now event payload).Travels) :
    ∃ f', Inv capacity (s.step (.request now event payload)) f' := by
  obtain ⟨v, hpayload, hv, hshort⟩ := htravels
  obtain ⟨x, hregister, hserves, hopen⟩ :=
    h.serves.register h.calm.isOpen f.delivered_le_length ⟨event, v⟩
  have hfits : Fits defaultLimit ([], ⟨event, v⟩) := by
    refine ⟨?_, hv, by simpa using hshort⟩
    intro b hb
    cases hb
  rw [h.request_eq (e := ⟨event, v⟩) hpayload hregister hopen]
  exact ((h.asked hpayload hfits hserves hopen).poll now s.requests.length).1

end Mirror

end EnvelopeClient
