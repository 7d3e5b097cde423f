import EnvelopeClient.Connection.Call
import EnvelopeClient.Proofs.Frame.Stream

/-!
# A peer that mirrors, and the messages on their way

A peer reads what a connection writes, decodes it and writes every message back once. Requests are
made and polled in any order, the peer reads and writes in pieces of any size, and the reader takes
its steps in between: `Mirror` is that system and `Mirror.Event` what can happen to it.

`Mirror.Flight` says where every message is: given to its waiter, on its way back, on its way out, or
not wholly written. `Flight.Stands` is how far the request of a message has come by then.
-/

namespace EnvelopeClient

open Json EnvelopeClient.Frame

/-- A request that was made, and what its latest poll came to. -/
structure Request where
  event : String
  payload : Payload
  poll : Poll

/-- A connection on which requests are made, and the peer that mirrors. -/
structure Mirror where
  connection : Connection
  requests : List Request
  /-- What the peer has read and not decoded. -/
  held : List UInt8
  /-- What the peer has mirrored and not written. -/
  outgoing : List UInt8

namespace Mirror

/-- One thing that happens. -/
inductive Event where
  | request (now : Nat) (event : String) (payload : Payload)
  | poll (now index : Nat)
  /-- The peer reads so many bytes at most. -/
  | peerReads (count : Nat)
  /-- The peer writes so many bytes at most. -/
  | peerWrites (count : Nat)
  /-- The reader takes a step, if it can. -/
  | reader

/-- Whether the message of a request, if it is one, survives the way out and back. -/
def Event.Travels : Event → Prop
  | .request _ event payload =>
    ∃ v, payload.toValue = .ok v ∧ v.Travels ∧ (Envelope.mk event v).toBytes.length ≤ defaultLimit
  | _ => True

/-- What the peer writes back for a frame. -/
def echo : Frame → List UInt8
  | .envelope e => e.toBytes
  | .malformed _ => []

/-- A fresh connection, on which nothing has been asked. -/
def start (peer : String) (capacity : Option Nat) : Mirror := ⟨.opened peer capacity, [], [], []⟩

/-- The peer reads some bytes, and decodes and mirrors what it has. -/
def peerReads (s : Mirror) (count : Nat) : Mirror :=
  let outbound := s.connection.outbound
  let (frames, held) := drain defaultLimit (s.held ++ outbound.unread.take count)
  { s with
    connection :=
      { s.connection with outbound := { outbound with unread := outbound.unread.drop count } }
    held
    outgoing := s.outgoing ++ frames.flatMap echo }

/-- What happens at an event. -/
def step (s : Mirror) : Event → Mirror
  | .request now event payload =>
    let (poll, connection) := s.connection.request now event payload
    { s with connection, requests := s.requests ++ [⟨event, payload, poll⟩] }
  | .poll now index =>
    match s.requests[index]? with
    | some ⟨event, payload, .pending call⟩ =>
      let (poll, connection) := call.poll s.connection now
      { s with connection, requests := s.requests.set index ⟨event, payload, poll⟩ }
    | _ => s
  | .peerReads count => s.peerReads count
  | .peerWrites count =>
    { s with
      connection := s.connection.peerWrite (s.outgoing.take count)
      outgoing := s.outgoing.drop count }
  | .reader => { s with connection := s.connection.readerStep.getD s.connection }

/-- The state behind events. -/
def run (s : Mirror) (events : List Event) : Mirror := events.foldl step s

/-! ### Where the messages are -/

/-- The messages of all requests, in their order. -/
structure Flight where
  /-- Given to their waiters. -/
  done : List Envelope
  /-- Mirrored, and on their way back. -/
  back : List Envelope
  /-- Wholly written, and on their way out. -/
  sent : List Envelope
  /-- Not wholly written. -/
  unsent : List Envelope
  /-- What is written of the first of these. -/
  part : List UInt8

namespace Flight

/-- All messages. -/
def all (f : Flight) : List Envelope := f.done ++ f.back ++ f.sent ++ f.unsent

/-- How many have been given to their waiters. -/
def delivered (f : Flight) : Nat := f.done.length

/-- How many are wholly written. -/
def written (f : Flight) : Nat := (f.done ++ f.back ++ f.sent).length

/-- The peer mirrors the first of the messages on their way out. -/
def mirror (f : Flight) (mirrored kept : List Envelope) : Flight :=
  { f with back := f.back ++ mirrored, sent := kept }

/-- The first message on its way back is given to its waiter. -/
def deliver (f : Flight) (e : Envelope) (left : List Envelope) : Flight :=
  { f with done := f.done ++ [e], back := left }

/-- More is written of the first message that is not wholly written. -/
def write (f : Flight) (bytes : List UInt8) : Flight := { f with part := f.part ++ bytes }

/-- That message is written to its end. -/
def finish (f : Flight) (e : Envelope) (rest : List Envelope) : Flight :=
  { f with sent := f.sent ++ [e], unsent := rest, part := [] }

/-- One more request is made. -/
def ask (f : Flight) (e : Envelope) : Flight := { f with unsent := f.unsent ++ [e] }

/-- How far the request of a message has come. -/
inductive Stands (f : Flight) (i : Nat) (e : Envelope) : Poll → Prop where
  /-- Its turn at the write half has not come. -/
  | waiting (h : f.written < i) :
    Stands f i e (.pending (.request i ⟨e.event, i, e.toBytes⟩))
  /-- It is being written. -/
  | writing {left : List UInt8} (h : i = f.written) (htext : f.part ++ left = e.toBytes)
      (hleft : left ≠ []) : Stands f i e (.pending (.request i ⟨e.event, i, left⟩))
  /-- It waits for its message to come back. -/
  | hearing (h : i < f.written) : Stands f i e (.pending (.receive i none true))
  | finished (h : i < f.delivered) : Stands f i e (.finished (.reply (.ok e.data)))

variable {f f' : Flight} {i : Nat} {e : Envelope} {poll : Poll} {rest : List Envelope}

theorem delivered_le_written (f : Flight) : f.delivered ≤ f.written := by
  simp only [delivered, written, List.length_append]
  omega

theorem length_all (f : Flight) : f.all.length = f.written + f.unsent.length := by
  rw [all, written, List.length_append]

theorem delivered_le_length (f : Flight) : f.delivered ≤ f.all.length := by
  rw [f.length_all]
  exact Nat.le_trans f.delivered_le_written (Nat.le_add_right _ _)

theorem all_written (h : f.unsent = e :: rest) :
    f.all[f.written]? = some e := by
  rw [all, written, List.getElem?_append_right (Nat.le_refl _), h]
  simp

theorem all_delivered (h : f.back = e :: rest) :
    f.all[f.delivered]? = some e := by
  rw [all, delivered, List.append_assoc, List.append_assoc,
    List.getElem?_append_right (Nat.le_refl _), h]
  simp

theorem all_mirror {mirrored kept : List Envelope} (h : f.sent = mirrored ++ kept) :
    (f.mirror mirrored kept).all = f.all := by
  simp [all, mirror, h]

theorem written_mirror {mirrored kept : List Envelope} (h : f.sent = mirrored ++ kept) :
    (f.mirror mirrored kept).written = f.written := by
  simp [written, mirror, h]

theorem all_deliver (h : f.back = e :: rest) : (f.deliver e rest).all = f.all := by
  simp [all, deliver, h]

theorem written_deliver (h : f.back = e :: rest) : (f.deliver e rest).written = f.written := by
  simp only [written, deliver, h, List.length_append, List.length_cons, List.length_nil]
  omega

theorem delivered_deliver (f : Flight) (e : Envelope) (rest : List Envelope) :
    (f.deliver e rest).delivered = f.delivered + 1 := by
  simp [delivered, deliver]

theorem all_finish (h : f.unsent = e :: rest) : (f.finish e rest).all = f.all := by
  simp [all, finish, h]

theorem written_finish (f : Flight) (e : Envelope) (rest : List Envelope) :
    (f.finish e rest).written = f.written + 1 := by
  simp [written, finish, Nat.add_assoc]

theorem all_ask (f : Flight) (e : Envelope) : (f.ask e).all = f.all ++ [e] := by
  simp [all, ask]

/-- A request stands where it stood as long as only deliveries happen. -/
theorem Stands.mono (h : f.Stands i e poll) (hwritten : f'.written = f.written)
    (hpart : f'.part = f.part) (hdelivered : f.delivered ≤ f'.delivered) : f'.Stands i e poll := by
  cases h with
  | waiting h => exact .waiting (hwritten ▸ h)
  | writing h htext hleft => exact .writing (hwritten ▸ h) (hpart ▸ htext) hleft
  | hearing h => exact .hearing (hwritten ▸ h)
  | finished h => exact .finished (Nat.lt_of_lt_of_le h hdelivered)

/-- What is written of one message does not concern the requests of others. -/
theorem Stands.write (bytes : List UInt8) (hne : i ≠ f.written) (h : f.Stands i e poll) :
    (f.write bytes).Stands i e poll := by
  cases h with
  | waiting h => exact .waiting h
  | writing h => exact absurd h hne
  | hearing h => exact .hearing h
  | finished h => exact .finished h

/-- Once a message is wholly written it is the turn of the next. -/
theorem Stands.finish (first : Envelope) (rest : List Envelope) (hne : i ≠ f.written)
    (h : f.Stands i e poll) : (f.finish first rest).Stands i e poll := by
  have hwritten := f.written_finish first rest
  cases h with
  | waiting h =>
    by_cases heq : i = (f.finish first rest).written
    · -- of the next message nothing is written yet
      exact .writing heq rfl e.toBytes_ne_nil
    · exact .waiting (by omega)
  | writing h => exact absurd h hne
  | hearing h => exact .hearing (by omega)
  | finished h => exact .finished h

/-- A request that is made waits for its turn, or has it at once. -/
theorem stands_ask (f : Flight) (e : Envelope) (hpart : f.unsent = [] → f.part = []) :
    (f.ask e).Stands f.all.length e
      (.pending (.request f.all.length ⟨e.event, f.all.length, e.toBytes⟩)) := by
  have hlength := f.length_all
  cases hunsent : f.unsent with
  | nil =>
    -- nobody else writes
    have htext : (f.ask e).part ++ e.toBytes = e.toBytes := by
      show f.part ++ e.toBytes = e.toBytes
      rw [hpart hunsent, List.nil_append]
    rw [hunsent] at hlength
    exact .writing hlength htext e.toBytes_ne_nil
  | cons first rest =>
    rw [hunsent, List.length_cons] at hlength
    have hlt : (f.ask e).written < f.all.length := by
      show f.written < f.all.length
      omega
    exact .waiting hlt

end Flight

end Mirror

end EnvelopeClient
