import EnvelopeClient.Proofs.Connection.Calls
import EnvelopeClient.Proofs.Connection.Reading

/-!
# A transport nothing goes wrong with

As long as nothing is closed, ended or made to fail (`Connection.Calm`), a write moves as many bytes
as there is room for, a reader never ends, and all that happens to the waiters is that messages are
given to them in the order in which they come. `pollSend_part`, `pollSend_whole` and
`readerStep_cases` say so step by step.
-/

namespace EnvelopeClient

open Json

/-! ### Writing -/

namespace Outbound

/-- Nobody has ended this direction, and nothing is laid in wait. -/
structure Calm (p : Outbound) : Prop where
  ended : p.ended = false
  abandoned : p.abandoned = false
  writeTrap : p.writeTrap = none
  flushTrap : p.flushTrap = none

/-- There is room in an empty pipe, unless it can hold nothing at all. -/
theorem room_pos {p : Outbound} (hcapacity : p.capacity ≠ some 0) (hempty : p.unread = [])
    {wanted : Nat} (hwanted : 0 < wanted) : 0 < p.room wanted := by
  rw [room, hempty]
  cases hlimit : p.capacity with
  | none => exact hwanted
  | some capacity =>
    have hpos : 0 < capacity := by
      refine Nat.pos_of_ne_zero ?_
      rintro rfl
      exact hcapacity hlimit
    simp only [List.length_nil]
    omega

/-- More bytes behind those that are there. -/
def put (p : Outbound) (bytes : List UInt8) : Outbound := { p with unread := p.unread ++ bytes }

variable {p : Outbound} {bytes : List UInt8}

theorem Calm.put (h : p.Calm) (bytes : List UInt8) : (p.put bytes).Calm :=
  ⟨h.ended, h.abandoned, h.writeTrap, h.flushTrap⟩

theorem Calm.goes_on (h : p.Calm) : ¬(p.ended || p.abandoned) = true := by
  simp [h.ended, h.abandoned]

theorem write_eq_fill (h : p.Calm) (hbytes : bytes ≠ []) : p.write bytes = p.fill bytes := by
  rw [write, h.writeTrap, if_neg (by simpa using hbytes)]

/-- A text there is room for is written. -/
theorem write_whole (h : p.Calm) (hbytes : bytes ≠ []) (hroom : bytes.length ≤ p.room bytes.length) :
    p.write bytes = (.done, p.put bytes) := by
  rw [write_eq_fill h hbytes, fill, if_neg (by simpa using hbytes), if_neg h.goes_on]
  simp only [List.drop_eq_nil_of_le hroom, List.take_of_length_le hroom]
  rfl

/-- Of any other the part there is room for. -/
theorem write_part (h : p.Calm) (hroom : p.room bytes.length < bytes.length) :
    p.write bytes = (.blocked (bytes.drop (p.room bytes.length)),
      p.put (bytes.take (p.room bytes.length))) := by
  have hbytes : bytes ≠ [] := by
    rintro rfl
    simp at hroom
  have hleft : bytes.drop (p.room bytes.length) ≠ [] := by
    rw [Ne, List.drop_eq_nil_iff]
    omega
  rw [write_eq_fill h hbytes, fill, if_neg (by simpa using hbytes), if_neg h.goes_on]
  simp only
  cases hdrop : bytes.drop (p.room bytes.length) with
  | nil => exact absurd hdrop hleft
  | cons b left => rfl

theorem flush_of_calm (h : p.Calm) : p.flush = (none, p) := by
  obtain ⟨capacity, unread, ended, abandoned, writeTrap, flushTrap, shutdownTrap⟩ := p
  obtain rfl : flushTrap = none := h.flushTrap
  rfl

end Outbound

theorem Inbound.read_of_unread {p : Inbound} (htrap : p.trap = none) (hunread : p.unread ≠ [])
    (room : Nat) :
    p.read room = (.bytes (p.unread.take room), { p with unread := p.unread.drop room }) := by
  rw [read, htrap, if_neg (by simpa using hunread)]

theorem Inbound.read_of_empty {p : Inbound} (htrap : p.trap = none) (hunread : p.unread = [])
    (hended : p.ended = false) (room : Nat) : p.read room = (.waiting, p) := by
  rw [read, htrap, hunread, hended]
  rfl

namespace Connection

/-- An open connection, with nothing closed, ended or made to fail. -/
structure Calm (c : Connection) : Prop where
  isOpen : c.status = .open
  cancelled : c.cancelled = false
  released : c.released = false
  outbound : c.outbound.Calm
  trap : c.inbound.trap = none
  ended : c.inbound.ended = false

variable {c c' : Connection} {s : Sending}

theorem Calm.isGone (h : c.Calm) : c.isGone = false := by
  rw [Connection.isGone, h.released, Bool.false_and]

/-- Whose turn it is not, waits. -/
theorem pollSend_of_other (hturn : c.turns.head? ≠ some s.turn) :
    c.pollSend s = (.pending s, c) := by
  rw [pollSend, hasTurn, if_neg (by simpa using hturn)]

theorem pollSend_part (h : c.Calm) (hturn : c.turns.head? = some s.turn)
    (hroom : c.outbound.room s.left.length < s.left.length) :
    c.pollSend s = (.pending { s with left := s.left.drop (c.outbound.room s.left.length) },
      { c with outbound := c.outbound.put (s.left.take (c.outbound.room s.left.length)) }) := by
  rw [pollSend, hasTurn, if_pos (by simpa using hturn), Outbound.write_part h.outbound hroom]

theorem pollSend_whole (h : c.Calm) (hturn : c.turns.head? = some s.turn) (hleft : s.left ≠ [])
    (hroom : s.left.length ≤ c.outbound.room s.left.length) :
    c.pollSend s = (.finished (.ok ()),
      { c with outbound := c.outbound.put s.left }.leaveTurns s.turn) := by
  rw [pollSend, hasTurn, if_pos (by simpa using hturn),
    Outbound.write_whole h.outbound hleft hroom]
  simp only [Outbound.flush_of_calm (h.outbound.put s.left)]

/-! ### Reading -/

/-- What the reader has taken and not decoded yet. -/
def taken (c : Connection) : List UInt8 :=
  match c.reader with
  | .running intake _ _ => intake.bytes
  | .ended => []

/-- A step of the reader takes bytes, or finds that there is no whole message, or takes a frame. -/
theorem readerStep_cases (h : c.Calm) {intake : Intake} {readable : Bool}
    (hreader : c.reader = .running intake readable false) (hstep : c.readerStep = some c') :
    (readable = false ∧ ∃ n intake', c.reading? = some (.bytes (c.inbound.unread.take n)) ∧
      intake'.bytes = intake.bytes ++ c.inbound.unread.take n ∧
      c' = { c with
        inbound := { c.inbound with unread := c.inbound.unread.drop n }
        reader := .running intake' true false }) ∨
    (readable = true ∧ ∃ intake', c.reading? = some .rest ∧
      Frame.decode Frame.defaultLimit intake.bytes = (none, intake'.bytes) ∧
      c' = { c with reader := .running intake' false false }) ∨
    (readable = true ∧ ∃ frame intake', c.reading? = some (.frame frame) ∧
      Frame.decode Frame.defaultLimit intake.bytes = (some frame, intake'.bytes) ∧
      c' = { c with reader := .running intake' true false }.dispatch frame) := by
  -- what comes of a read if there is nothing, and if there is something
  have hempty := Inbound.read_of_empty (p := c.inbound) h.trap
  have hunread := Inbound.read_of_unread (p := c.inbound) h.trap
  obtain ⟨r, hreading, hreads⟩ := reads_readerStep hstep
  cases hreads with
  | stop hrunning hcancelled => cases h.cancelled.symm.trans hcancelled
  | @bytes intake' atEnd chunk inbound hrunning hcancelled hread =>
    cases hreader.symm.trans hrunning
    by_cases hnil : c.inbound.unread = []
    · cases (hempty hnil h.ended _).symm.trans hread
    · cases (hunread hnil _).symm.trans hread
      refine .inl ⟨rfl, _, _, hreading, ?_, rfl⟩
      rw [Intake.append, Intake.bytes_makeRoom]
  | ended hrunning hcancelled hread | failed hrunning hcancelled hread =>
    by_cases hnil : c.inbound.unread = []
    · cases (hempty hnil h.ended _).symm.trans hread
    · cases (hunread hnil _).symm.trans hread
  | frame hrunning hcancelled hdecode =>
    cases hreader.symm.trans hrunning
    exact .inr (.inr ⟨rfl, _, _, hreading, Intake.bytes_of_decode hdecode, rfl⟩)
  | rest hrunning hcancelled hdecode =>
    cases hreader.symm.trans hrunning
    exact .inr (.inl ⟨rfl, _, hreading, Intake.bytes_of_decode hdecode, rfl⟩)
  | lastFrame hrunning _ _ | finish hrunning _ _ => cases hreader.symm.trans hrunning

end Connection

/-! ### Serving messages in their order -/

namespace Exchange

/-- The waiters are those of `messages`, one each and in their order; the first `d` have been given
theirs, and the others wait. -/
structure Serves (x : Exchange) (messages : List Envelope) (d : Nat) : Prop where
  sound : x.Sound
  length : x.mailboxes.length = messages.length
  eventOf : ∀ {i e}, messages[i]? = some e → x.eventOf i = e.event
  outcome? : ∀ {i e}, messages[i]? = some e →
    x.outcome? i = if i < d then some (.ok e.data) else none
  held : ∀ {i}, d ≤ i → i < messages.length → x.isHeld i = true

variable {x : Exchange} {messages : List Envelope} {d : Nat} {e : Envelope}

/-- Who waits stands in the order of registration. -/
theorem pairwise_waitingFor (x : Exchange) (tag : String) :
    (x.waitingFor tag).Pairwise (· < ·) :=
  (List.pairwise_lt_range.filter _).filter _

theorem Serves.isWaiting (h : x.Serves messages d) {i : Nat} (hi : messages[i]? = some e) :
    x.isWaiting i = decide (d ≤ i) := by
  have hlt : i < messages.length := (List.getElem?_eq_some_iff.mp hi).1
  rw [isWaiting_eq, h.outcome? hi]
  by_cases hd : i < d
  · simp [hd]
  · simp [hd, h.held (Nat.le_of_not_lt hd) hlt, Nat.le_of_not_lt hd]

/-- The oldest waiter of a tag is the first in its queue. -/
theorem waitingFor_eq_cons {tag : String} {id : Nat} (hid : id ∈ x.waitingFor tag)
    (holdest : ∀ other ∈ x.waitingFor tag, id ≤ other) : ∃ rest, x.waitingFor tag = id :: rest := by
  have hsorted := x.pairwise_waitingFor tag
  cases hq : x.waitingFor tag with
  | nil =>
    rw [hq] at hid
    cases hid
  | cons first rest =>
    have hle := holdest first (hq ▸ List.mem_cons_self)
    rw [hq] at hid hsorted
    rcases List.mem_cons.mp hid with rfl | hrest
    · exact ⟨rest, rfl⟩
    · have hgt := (List.pairwise_cons.mp hsorted).1 id hrest
      omega

/-- The next message goes to the waiter it is meant for, whatever tags the others have. -/
theorem Serves.waitingFor (h : x.Serves messages d) (he : messages[d]? = some e) :
    ∃ rest, x.waitingFor e.event = d :: rest := by
  have hwaiting : x.isWaiting d = true := by simp [h.isWaiting he]
  refine waitingFor_eq_cons (mem_waitingFor.mpr ⟨hwaiting, h.eventOf he⟩) ?_
  -- whoever waits has a number from `d` on
  intro other hother
  have hwaits : x.isWaiting other = true := (mem_waitingFor.mp hother).1
  have hlt : other < messages.length := h.length ▸ lt_of_isWaiting hwaits
  rw [h.isWaiting (List.getElem?_eq_getElem hlt)] at hwaits
  exact of_decide_eq_true hwaits

theorem Serves.deliver (h : x.Serves messages d) (he : messages[d]? = some e) :
    (x.deliver e).1 = true ∧ (x.deliver e).2.Serves messages (d + 1) := by
  obtain ⟨rest, hq⟩ := h.waitingFor he
  have hsound := h.sound.deliver e
  have hheld := isHeld_deliver h.sound e
  have hevent := eventOf_deliver h.sound e
  have hlength := length_deliver h.sound e
  have hlt : d < x.mailboxes.length := h.length ▸ (List.getElem?_eq_some_iff.mp he).1
  refine ⟨by rw [deliver_of_cons h.sound hq], hsound, hlength.trans h.length, ?_, ?_, ?_⟩
  · intro i e' hi
    exact (hevent i).trans (h.eventOf hi)
  · intro i e' hi
    rw [deliver_of_cons h.sound hq, outcome?_withMailbox]
    by_cases heq : i = d
    · subst heq
      obtain rfl := Option.some.inj (he.symm.trans hi)
      rw [if_pos rfl, if_pos (Nat.lt_succ_self i), List.getElem?_eq_getElem hlt]
      rfl
    · have hiff : i < d + 1 ↔ i < d := by omega
      rw [if_neg heq, h.outcome? hi]
      simp only [hiff]
  · intro i hle hlt
    exact (hheld i).trans (h.held (by omega) hlt)

/-- What stands in a list behind which one thing was put. -/
theorem getElem?_concat_cases {α : Type} {list : List α} {a b : α} {i : Nat}
    (h : (list ++ [a])[i]? = some b) :
    i = list.length ∧ b = a ∨ i < list.length ∧ list[i]? = some b := by
  rcases Nat.lt_trichotomy i list.length with hlt | rfl | hgt
  · rw [List.getElem?_append_left hlt] at h
    exact .inr ⟨hlt, h⟩
  · rw [List.getElem?_concat_length] at h
    exact .inl ⟨rfl, (Option.some.inj h).symm⟩
  · rw [List.getElem?_eq_none] at h
    · cases h
    · rw [List.length_append, List.length_singleton]
      omega

/-- A new waiter comes behind all others. -/
theorem Serves.register (h : x.Serves messages d) (hopen : x.status = .open)
    (hd : d ≤ messages.length) (e : Envelope) :
    ∃ y, x.register e.event = .ok (messages.length, y) ∧ y.Serves (messages ++ [e]) d ∧
      y.status = .open := by
  have hregister := register_of_open h.sound hopen e.event
  rw [h.length] at hregister
  refine ⟨_, hregister, ⟨h.sound.register hregister, ?_, ?_, ?_, ?_⟩, hopen⟩
  · simp [extended, h.length]
  · intro i e' hi
    rw [eventOf_extended, h.length]
    rcases getElem?_concat_cases hi with ⟨rfl, rfl⟩ | ⟨hlt, hi⟩
    · rw [if_pos rfl]
    · rw [if_neg (Nat.ne_of_lt hlt), h.eventOf hi]
  · intro i e' hi
    rw [outcome?_extended]
    rcases getElem?_concat_cases hi with ⟨rfl, rfl⟩ | ⟨-, hi⟩
    · rw [if_neg (Nat.not_lt_of_le hd), ← h.length]
      exact outcome?_of_length_le (Nat.le_refl _)
    · exact h.outcome? hi
  · intro i hle hlt
    rw [isHeld_extended, h.length]
    split
    · rfl
    · rw [List.length_append, List.length_singleton] at hlt
      exact h.held hle (by omega)

/-- A waiter that takes what it was given does not concern the others. -/
theorem Serves.settle (h : x.Serves messages d) {i : Nat} (hi : i < d)
    (hd : d ≤ messages.length) : (x.settle i).Serves messages d := by
  have hkeeps := keeps_settle x i
  have hdone : x.isWaiting i = false := by
    rw [h.isWaiting (List.getElem?_eq_getElem (by omega : i < messages.length))]
    simpa using hi
  refine ⟨h.sound.settle hdone, hkeeps.length.trans h.length, ?_, ?_, ?_⟩
  · intro j e hj
    exact (hkeeps.eventOf j).trans (h.eventOf hj)
  · intro j e hj
    exact (hkeeps.outcome? j).trans (h.outcome? hj)
  · intro j hle hlt
    have hne : j ≠ i := by omega
    rw [settle_eq, isHeld_released, h.held hle hlt]
    simpa using hne

end Exchange

end EnvelopeClient
