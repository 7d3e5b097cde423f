import EnvelopeClient.Proofs.Client.Runs
import EnvelopeClient.Proofs.Connection.Asking
import EnvelopeClient.Proofs.Frame.Stream

/-!
# Messages that are written in their turns

A connection may have no room for a message, or only for a part of it. So the messages of a
client's requests stand in line: they are written one after the other, in the order in which the
requests came, and each as far as there is room whenever its request is polled. A `Backlog` says how
many are written and what is left of the others, and `Connection.Writes` that bytes and turns are as
it says. A request comes in behind the others (`Writes.ask`), and polling one concerns no message
but its own (`Writes.poll`).
-/

namespace EnvelopeClient

open Json EnvelopeClient.Frame

/-- How far messages that are written one after the other have come. -/
structure Backlog where
  /-- How many are written. -/
  written : Nat
  /-- What is left of each of the others. -/
  rests : List (List UInt8)

namespace Backlog

/-- There is no message yet. -/
def empty : Backlog := ⟨0, []⟩

/-- One more message, which is to be written. -/
def add (b : Backlog) (text : List UInt8) : Backlog := { b with rests := b.rests ++ [text] }

/-- What is left of a message that is not written. -/
def rest? (b : Backlog) (n : Nat) : Option (List UInt8) :=
  if n < b.written then none else b.rests[n - b.written]?

/-- What a request does whose message has this number: it sends it, or waits for its answer. -/
def call (b : Backlog) (n : Nat) (event : String) (reply : Nat) (error : Option Nat)
    (limit : Option Nat) (deadline : Option Deadline) : Call :=
  match b.rest? n with
  | some left => .ask reply error ⟨event, n, left⟩ limit
  | none => .hear event reply error deadline

variable {b : Backlog} {m n written : Nat} {text first left : List UInt8}
  {more : List (List UInt8)} {event : String} {reply : Nat} {error limit : Option Nat}
  {deadline : Option Deadline}

theorem rest?_of_lt (hn : n < b.written) : b.rest? n = none := if_pos hn

theorem rest?_of_le (hn : b.written ≤ n) : b.rest? n = b.rests[n - b.written]? :=
  if_neg (Nat.not_lt_of_le hn)

theorem rest?_of_nil (hnone : b.rests = []) : b.rest? n = none := by
  rw [rest?, hnone]
  split <;> rfl

/-- There are no more messages than those written and those left. -/
theorem rest?_of_length_le (hn : b.written + b.rests.length ≤ n) : b.rest? n = none := by
  rw [rest?_of_le (Nat.le_of_add_right_le hn)]
  exact List.getElem?_eq_none (by omega)

/-- If nothing is left of any message, all are written. -/
theorem rests_eq_nil (hnone : ∀ n, b.rest? n = none) : b.rests = [] := by
  have hfirst := hnone b.written
  rwa [rest?_of_le (Nat.le_refl _), Nat.sub_self, List.getElem?_eq_none_iff, Nat.le_zero,
    List.length_eq_zero_iff] at hfirst

theorem rest?_add_self (hn : b.written + b.rests.length = n) :
    (b.add text).rest? n = some text := by
  subst hn
  simp [rest?, add]

theorem rest?_add (hm : m < b.written + b.rests.length) : (b.add text).rest? m = b.rest? m := by
  rcases Nat.lt_or_ge m b.written with hlt | hle
  · rw [rest?_of_lt hlt]
    exact rest?_of_lt hlt
  · have hlt : m - b.written < b.rests.length := by omega
    rw [rest?_of_le hle, rest?_of_le (show (b.add text).written ≤ m from hle)]
    exact List.getElem?_append_left hlt

/-- Of the first message that is not written, a part is. -/
theorem rest?_cut : (Backlog.mk written (left :: more)).rest? written = some left := by
  simp [rest?]

theorem rest?_cut_of_ne (hm : m ≠ written) :
    (Backlog.mk written (left :: more)).rest? m =
      (Backlog.mk written (first :: more)).rest? m := by
  rcases Nat.lt_or_gt_of_ne hm with hlt | hgt
  · exact (rest?_of_lt hlt).trans (rest?_of_lt hlt).symm
  · obtain ⟨k, rfl⟩ : ∃ k, m = written + k + 1 := ⟨m - written - 1, by omega⟩
    have hk : written + k + 1 - written = k + 1 := by omega
    refine (rest?_of_le hgt.le).trans (.trans ?_ (rest?_of_le hgt.le).symm)
    rw [hk, List.getElem?_cons_succ, List.getElem?_cons_succ]

/-- The first message that was not written is. -/
theorem rest?_next : (Backlog.mk (written + 1) more).rest? written = none :=
  rest?_of_lt (Nat.lt_succ_self _)

theorem rest?_next_of_ne (hm : m ≠ written) :
    (Backlog.mk (written + 1) more).rest? m =
      (Backlog.mk written (first :: more)).rest? m := by
  rcases Nat.lt_or_gt_of_ne hm with hlt | hgt
  · exact (rest?_of_lt (Nat.lt_succ_of_lt hlt)).trans (rest?_of_lt hlt).symm
  · obtain ⟨k, rfl⟩ : ∃ k, m = written + 1 + k := ⟨m - (written + 1), by omega⟩
    have hk : written + 1 + k - written = k + 1 := by omega
    refine (rest?_of_le (Nat.le_add_right _ _)).trans (.trans ?_ (rest?_of_le hgt.le).symm)
    rw [hk, List.getElem?_cons_succ, Nat.add_sub_cancel_left]

theorem call_of_some (h : b.rest? n = some left) :
    b.call n event reply error limit deadline = .ask reply error ⟨event, n, left⟩ limit := by
  rw [call, h]

theorem call_of_none (h : b.rest? n = none) :
    b.call n event reply error limit deadline = .hear event reply error deadline := by
  rw [call, h]

theorem call_congr {b' : Backlog} (h : b'.rest? n = b.rest? n) :
    b'.call n event reply error limit deadline = b.call n event reply error limit deadline := by
  rw [call, call, h]

/-- Whatever it does, its waiters are the same. -/
theorem waiters_call : (b.call n event reply error limit deadline).waiters =
    reply :: error.toList := by
  rw [call]
  cases b.rest? n <;> rfl

end Backlog

namespace Connection

variable {c c' : Connection} {messages : List Envelope} {read : List UInt8} {b b' : Backlog}
  {n : Nat} {event : String} {reply : Nat} {error limit : Option Nat}

/-- The messages are those that requests have sent on a connection of which the peer has read so
much. The first are written, and the others stand in line. -/
structure Writes (c : Connection) (messages : List Envelope) (read : List UInt8) (b : Backlog) :
    Prop where
  length : b.written + b.rests.length = messages.length
  turns : c.turns = List.range' b.written b.rests.length
  nextTurn : c.nextTurn = messages.length
  left : ∀ rest ∈ b.rests, rest ≠ []
  bytes : read ++ (c.outbound.unread ++ b.rests.flatten) = texts messages

theorem writes_opened (peer : String) (capacity : Option Nat) :
    (opened peer capacity).Writes [] [] .empty where
  length := rfl
  turns := rfl
  nextTurn := rfl
  left rest hrest := by cases hrest
  bytes := rfl

/-- What a poll of a request comes to for the messages: nothing happens to any but its own. -/
structure Forwards (c c' : Connection) (messages : List Envelope) (read : List UInt8)
    (b b' : Backlog) (n : Nat) : Prop where
  writes : c'.Writes messages read b'
  same : ∃ outbound turns, c' = { c with outbound, turns } ∧ outbound.Calm ∧
    outbound.capacity = c.outbound.capacity
  others : ∀ m, m ≠ n → b'.rest? m = b.rest? m
  written : b.rest? n = none → b'.rest? n = none
  /-- The first in line writes as much as there is room for. -/
  fills : ∀ left, n = b.written → b.rest? n = some left →
    c'.outbound.unread = c.outbound.unread ++ left.take (c.outbound.room left.length)
  /-- Where there is room for everything, the first in line is written whole. -/
  whole : c.outbound.capacity = none → n = b.written → b'.rests = b.rests.tail

/-- Nothing is left of a message that was written. -/
theorem Forwards.rest?_eq_none (h : c.Forwards c' messages read b b' n) {m : Nat}
    (hnone : b.rest? m = none) : b'.rest? m = none := by
  by_cases hm : m = n
  · subst hm
    exact h.written hnone
  · rw [h.others m hm, hnone]

theorem Forwards.rests_eq_nil (h : c.Forwards c' messages read b b' n) (hnone : b.rests = []) :
    b'.rests = [] :=
  Backlog.rests_eq_nil fun _ => h.rest?_eq_none (Backlog.rest?_of_nil hnone)

namespace Writes

theorem peerRead (h : c.Writes messages read b) (count : Nat) :
    (c.peerRead count).Writes messages (read ++ c.outbound.unread.take count) b :=
  { h with
    bytes := by
      rw [Connection.peerRead, List.append_assoc,
        ← List.append_assoc (c.outbound.unread.take count), List.take_append_drop]
      exact h.bytes }

/-- What does not concern the bytes on their way out and the turns is nothing to the messages. -/
theorem aside (h : c.Writes messages read b) (houtbound : c'.outbound = c.outbound)
    (hturns : c'.turns = c.turns) (hnext : c'.nextTurn = c.nextTurn) :
    c'.Writes messages read b where
  length := h.length
  turns := hturns.trans h.turns
  nextTurn := hnext.trans h.nextTurn
  left := h.left
  bytes := houtbound ▸ h.bytes

/-- If nobody is in line, everything is written, and the other way round. -/
theorem turns_eq_nil_iff (h : c.Writes messages read b) :
    c.turns = [] ↔ read ++ c.outbound.unread = texts messages := by
  rw [h.turns, ← h.bytes, ← List.append_assoc]
  constructor
  · intro hnone
    have hrests : b.rests = [] := by simpa using hnone
    rw [hrests, List.flatten_nil, List.append_nil]
  · intro hall
    have hflat : b.rests.flatten = [] := (List.self_eq_append_right.mp hall)
    cases hrests : b.rests with
    | nil => rfl
    | cons rest more =>
      rw [hrests, List.flatten_cons] at hflat
      exact absurd (List.append_eq_nil_iff.mp hflat).1 (h.left rest (hrests ▸ List.mem_cons_self))

theorem rests_eq_nil (h : c.Writes messages read b) (hturns : c.turns = []) : b.rests = [] := by
  have hrange := h.turns.symm.trans hturns
  simpa using hrange

/-- If somebody is in line, something is left of the first message that is not written. -/
theorem exists_first (h : c.Writes messages read b) (hturns : c.turns ≠ []) :
    ∃ left, left ≠ [] ∧ b.rest? b.written = some left := by
  obtain ⟨left, more, hrests⟩ : ∃ left more, b.rests = left :: more := by
    refine List.exists_cons_of_ne_nil ?_
    intro hnone
    refine hturns (h.turns.trans ?_)
    rw [hnone]
    rfl
  refine ⟨left, h.left left (hrests ▸ List.mem_cons_self), ?_⟩
  rw [Backlog.rest?_of_le (Nat.le_refl _), hrests, Nat.sub_self]
  rfl

/-- One more message comes in line. -/
theorem join (h : c.Writes messages read b) (e : Envelope) (x : Exchange) :
    Writes { c with
      exchange := x
      turns := c.turns ++ [c.nextTurn]
      nextTurn := c.nextTurn + 1 } (messages ++ [e]) read (b.add e.toBytes) where
  length := by
    simp only [Backlog.add, List.length_append, List.length_singleton]
    rw [← h.length, Nat.add_assoc]
  turns := by
    simp only [Backlog.add, List.length_append, List.length_singleton]
    rw [h.turns, h.nextTurn, ← h.length, List.range'_1_concat]
  nextTurn := by
    rw [List.length_append]
    exact congrArg (· + 1) h.nextTurn
  left rest hrest := by
    rcases List.mem_append.mp hrest with hrest | hrest
    · exact h.left rest hrest
    · obtain rfl := List.mem_singleton.mp hrest
      exact Envelope.toBytes_ne_nil e
  bytes := by
    rw [texts_append, texts_singleton, ← h.bytes, Backlog.add, List.flatten_append]
    simp only [List.flatten_singleton, List.append_assoc]

/-- Whoever is not first in line, or is written, leaves everything as it is. -/
theorem forwards_self (h : c.Writes messages read b) (hcalm : c.Calm)
    (hn : n = b.written → b.rests = []) : c.Forwards c messages read b b n where
  writes := h
  same := ⟨c.outbound, c.turns, rfl, hcalm.outbound, rfl⟩
  others _ _ := rfl
  written := id
  fills left hfirst hleft := by
    rw [Backlog.rest?_of_nil (hn hfirst)] at hleft
    cases hleft
  whole _ hfirst := by
    rw [hn hfirst]
    rfl

section

variable {written : Nat} {first : List UInt8} {more : List (List UInt8)}
  (h : c.Writes messages read ⟨written, first :: more⟩) (hcalm : c.Calm)

include h hcalm

/-- If there is room for a part of the first message in line only, this part is written. -/
theorem forwards_part (hpart : c.outbound.room first.length < first.length) :
    c.Forwards { c with outbound := c.outbound.put (first.take (c.outbound.room first.length)) }
      messages read ⟨written, first :: more⟩
      ⟨written, first.drop (c.outbound.room first.length) :: more⟩ written where
  writes :=
    { h with
      left := by
        intro left hmem
        rcases List.mem_cons.mp hmem with rfl | hmem
        · rw [Ne, List.drop_eq_nil_iff]
          omega
        · exact h.left left (List.mem_cons_of_mem _ hmem)
      bytes := by
        rw [← h.bytes, Outbound.put, List.flatten_cons, List.flatten_cons, List.append_assoc,
          ← List.append_assoc (first.take _), List.take_append_drop] }
  same := ⟨_, c.turns, rfl, hcalm.outbound.put _, rfl⟩
  others _ hm := Backlog.rest?_cut_of_ne hm
  written hnone := by
    rw [Backlog.rest?_cut] at hnone
    cases hnone
  fills left _ hleft := by
    rw [Backlog.rest?_cut] at hleft
    cases hleft
    rfl
  whole hcapacity := by
    rw [Outbound.room, hcapacity] at hpart
    exact absurd hpart (Nat.lt_irrefl _)

/-- If there is room for it, the first message in line is written, and it is the turn of the next. -/
theorem forwards_whole (hwhole : first.length ≤ c.outbound.room first.length) :
    c.Forwards ({ c with outbound := c.outbound.put first }.leaveTurns written) messages read
      ⟨written, first :: more⟩ ⟨written + 1, more⟩ written where
  writes :=
    { length := (Nat.succ_add _ _).trans h.length
      turns := by
        have hturns : c.turns = written :: List.range' (written + 1) more.length := h.turns
        rw [leaveTurns]
        simp only [hturns]
        rw [List.filter_cons_of_neg (by simp)]
        refine List.filter_eq_self.mpr ?_
        intro turn hturn
        have hlt := (List.mem_range'_1.mp hturn).1
        simpa using (Nat.ne_of_lt hlt).symm
      nextTurn := h.nextTurn
      left := fun left hmem => h.left left (List.mem_cons_of_mem _ hmem)
      bytes := by rw [← h.bytes, leaveTurns, Outbound.put, List.flatten_cons, List.append_assoc] }
  same := ⟨_, _, rfl, hcalm.outbound.put _, rfl⟩
  others _ hm := Backlog.rest?_next_of_ne hm
  written _ := Backlog.rest?_next
  fills left _ hleft := by
    rw [Backlog.rest?_cut] at hleft
    cases hleft
    rw [List.take_of_length_le hwhole]
    rfl
  whole _ _ := rfl

end

/-- A request whose message is not written is polled: it waits for its turn, or writes as far as
there is room, and when its message is written it is polled for its answer. -/
theorem poll_ask (h : c.Writes messages read b) (hcalm : c.Calm) {rest : List UInt8}
    (hrest : b.rest? n = some rest) (now : Nat) :
    ∃ b' c', c.Forwards c' messages read b b' n ∧
      (Call.ask reply error ⟨event, n, rest⟩ limit).poll c now =
        match b'.rest? n with
        | some left => (.pending (.ask reply error ⟨event, n, left⟩ limit), c')
        | none => Call.pollHear c' now event reply error (Call.deadlineFrom now limit) := by
  by_cases hn : n = b.written
  · -- it is its turn
    subst hn
    obtain ⟨written, rests⟩ := b
    obtain ⟨more, rfl⟩ : ∃ more, rests = rest :: more := by
      refine List.head?_eq_some_iff.mp ?_
      rw [List.head?_eq_getElem?]
      simpa [Backlog.rest?] using hrest
    have hhead : c.turns.head? = some written := by
      rw [h.turns]
      rfl
    have hleft : rest ≠ [] := h.left rest List.mem_cons_self
    rcases Nat.lt_or_ge (c.outbound.room rest.length) rest.length with hpart | hwhole
    · refine ⟨_, _, h.forwards_part hcalm hpart, ?_⟩
      rw [Backlog.rest?_cut, Call.poll, pollSend_part hcalm hhead hpart]
    · refine ⟨_, _, h.forwards_whole hcalm hwhole, ?_⟩
      rw [Backlog.rest?_next, Call.poll, pollSend_whole hcalm hhead hleft hwhole]
  · refine ⟨b, c, h.forwards_self hcalm fun heq => absurd heq hn, ?_⟩
    have hother : c.turns.head? ≠ some n := by
      rw [h.turns, List.head?_range']
      split
      · simp
      · simpa using Ne.symm hn
    rw [hrest, Call.poll, pollSend_of_other hother]

/-- A request that was sent is polled. -/
theorem poll (h : c.Writes messages read b) (hcalm : c.Calm) (n : Nat) (event : String)
    (reply : Nat) (error limit : Option Nat) (deadline : Option Deadline) (now : Nat) :
    ∃ b' c' deadline', c.Forwards c' messages read b b' n ∧
      (deadline' = deadline ∨ deadline' = Call.deadlineFrom now limit) ∧
      (b.call n event reply error limit deadline).poll c now =
        match b'.rest? n with
        | some left => (.pending (.ask reply error ⟨event, n, left⟩ limit), c')
        | none => Call.pollHear c' now event reply error deadline' := by
  cases hrest : b.rest? n with
  | some rest =>
    obtain ⟨b', c', hforwards, hpoll⟩ := h.poll_ask hcalm hrest now
    rw [Backlog.call_of_some hrest]
    exact ⟨b', c', _, hforwards, .inr rfl, hpoll⟩
  | none =>
    refine ⟨b, c, deadline, h.forwards_self hcalm ?_, .inl rfl, ?_⟩
    · -- nobody is in line behind it
      rintro rfl
      simpa [Backlog.rest?] using hrest
    · rw [Backlog.call_of_none hrest, hrest]
      rfl

/-- A request whose payload can be sent comes in line behind all others. Its message is written as
far as there is room if nobody is before it. -/
theorem ask (h : c.Writes messages read b) (hcalm : c.Calm) {x : Exchange} {e : Envelope}
    (henlists : Exchange.Enlists e.event c.exchange reply error x) {payload : Payload}
    (hpayload : payload.toValue = .ok e.data) (hroom : c.outbound.capacity = none → b.rests = [])
    (limit : Option Nat) (hlimit : ∀ ms ∈ limit, 0 < ms) (now : Nat) :
    ∃ b' outbound turns,
      c.ask now e.event payload limit =
        (.pending (b'.call messages.length e.event reply error limit (Call.deadlineFrom now limit)),
          { c with exchange := x, outbound, turns, nextTurn := c.nextTurn + 1 }) ∧
      Writes { c with exchange := x, outbound, turns, nextTurn := c.nextTurn + 1 } (messages ++ [e])
        read b' ∧
      outbound.Calm ∧ outbound.capacity = c.outbound.capacity ∧
      (∀ m < messages.length, b'.rest? m = b.rest? m) ∧
      (c.outbound.capacity = none → b'.rests = []) := by
  let joined : Connection := { c with
    exchange := x, turns := c.turns ++ [c.nextTurn], nextTurn := c.nextTurn + 1 }
  have hcalm' : joined.Calm := ⟨henlists.isOpen, hcalm.cancelled, hcalm.released, hcalm.outbound,
    hcalm.trap, hcalm.ended⟩
  obtain ⟨b', c', hforwards, hpoll⟩ := (h.join e x).poll_ask hcalm'
    (Backlog.rest?_add_self h.length) now
  obtain ⟨hwrites, ⟨outbound, turns, rfl, houtbound, hcapacity⟩, hothers, -, -, hwhole⟩ :=
    hforwards
  refine ⟨b', outbound, turns, ?_, hwrites, houtbound, hcapacity, ?_, ?_⟩
  · have hturn : (Call.ask reply error ⟨e.event, c.nextTurn, e.toBytes⟩ limit).poll joined now =
        (Call.ask reply error ⟨e.event, messages.length, e.toBytes⟩ limit).poll joined now := by
      rw [h.nextTurn]
    refine (ask_of_sendable henlists hpayload now limit).trans (hturn.trans (hpoll.trans ?_))
    cases hrest : b'.rest? messages.length with
    | some left => rw [Backlog.call_of_some hrest]
    | none =>
      let sent : Connection := { joined with outbound, turns }
      have hgone : sent.isGone = false := hcalm'.isGone
      rw [Backlog.call_of_none hrest]
      exact pollHear_of_new (c := sent) hgone henlists.outcome? hlimit now
  · intro m hm
    rw [hothers m (Nat.ne_of_lt hm)]
    exact Backlog.rest?_add (h.length.symm ▸ hm)
  · intro hnone
    have hrests := hroom hnone
    have hlength := h.length
    rw [hrests, List.length_nil, Nat.add_zero] at hlength
    rw [hwhole hnone hlength.symm, Backlog.add, hrests]
    rfl

end Writes

end Connection

end EnvelopeClient
