import EnvelopeClient.Proofs.Client.Runs
import EnvelopeClient.Proofs.Connection.Transport
import EnvelopeClient.Proofs.Frame.Stream
import Mathlib.Data.List.Forall2

/-!
# A client and a peer that answers

Requests are made on one client and polled in any order, on a connection with room for so much. The
peer answers each request, in the order in which their messages are written, with a message of the
same tag or with an error message; answers come back in pieces of any size while the reader takes its
steps. `Service` is that system and `Service.Event` what can happen to it.

Nothing in an error message says which request it answers. `Service.Fair` is what is asked of
requests and peer, and `Service.Prompt` is what it takes for an error message to reach the request it
answers: that nobody who has been given a reply still listens for one.
-/

namespace EnvelopeClient

open Json

theorem getElem?_append_of_some {α : Type} {list : List α} {n : Nat} {a : α}
    (h : list[n]? = some a) (more : List α) : (list ++ more)[n]? = some a := by
  rw [List.getElem?_append_left (List.getElem?_eq_some_iff.mp h).1, h]

/-- What a peer answers to a request: data under the tag of the request, or an error message. -/
structure Response where
  refuses : Bool
  data : Value
  /-- The text in which it is written. -/
  piece : Frame.Piece

namespace Response

/-- The message of a response to a request for a tag. -/
def message (r : Response) (event : String) : Envelope :=
  ⟨if r.refuses then Envelope.errorEvent else event, r.data⟩

/-- The text of a response is one of its message, and not beyond the limit. -/
structure Fits (r : Response) (event : String) : Prop where
  frame : r.piece.frame = .envelope (r.message event)
  short : r.piece.bytes.length ≤ Frame.defaultLimit

/-- If the text of the next response is not beyond the limit, that of the next document is not. -/
theorem short_head {back : List Response}
    (h : ∀ r ∈ back.head?, r.piece.bytes.length ≤ Frame.defaultLimit) :
    ∀ p ∈ (back.map Response.piece).head?, p.bytes.length ≤ Frame.defaultLimit := by
  intro p hp
  rw [List.head?_map] at hp
  obtain ⟨r, hr, rfl⟩ := Option.map_eq_some_iff.mp hp
  exact h r hr

/-- What the request that is answered has to end with. -/
def reply (r : Response) : Reply :=
  if r.refuses then .error (.remote (remoteMessage r.data)) else .ok r.data

end Response

/-- Whether the next step of the reader takes an error message. -/
def Connection.takesError (c : Connection) : Bool :=
  match c.reader with
  | .running intake true false =>
    match (intake.decode Frame.defaultLimit).1 with
    | some (.envelope e) => e.event = Envelope.errorEvent
    | _ => false
  | _ => false

/-- Whether a request that was sent has been given a reply. -/
def InFlight.isReplied (r : InFlight) (c : Connection) : Bool :=
  match r.progress with
  | .running _ (.ask reply _ _ _) | .running _ (.hear _ reply _ _) => (c.outcome? reply).isSome
  | _ => false

/-- Whether a request is under way on a connection. -/
def InFlight.isUnderWay (r : InFlight) : Bool :=
  match r.progress with
  | .running _ _ => true
  | _ => false

/-- Whether an unfinished request is under way. -/
def Client.isUnderWay (c : Client) (id : Nat) : Bool :=
  (c.requests.lookup id).any InFlight.isUnderWay

/-- What the peers of a client have not read. -/
def Client.unread (c : Client) : List UInt8 := c.connections.flatMap (·.outbound.unread)

/-- A client on which requests are made, and the peer that answers. -/
structure Service where
  client : Client
  /-- The requests by number. -/
  asked : List (String × Payload)
  /-- The requests that were sent. Their messages are written, or to be written, in this order. -/
  sent : List Nat
  /-- What the peer has read. -/
  read : List UInt8
  /-- What the peer has answered: the first response is to the request sent first, and so on. -/
  responses : List Response
  /-- What the peer has answered and not written. -/
  outgoing : List UInt8
  /-- What the requests that have ended came to. -/
  replies : List (Nat × Reply)

namespace Service

/-- One thing that happens. -/
inductive Event where
  | begin (event : String) (payload : Payload)
  | poll (id now : Nat) (dial : Dial)
  /-- The peer reads so many bytes at most. -/
  | peerReads (count : Nat)
  /-- The peer answers the first request it has not answered. -/
  | respond (response : Response)
  /-- The peer writes so many bytes at most. -/
  | peerWrites (count : Nat)
  /-- The reader takes a step, if it can. -/
  | reader

/-- Nothing has been asked. -/
def start (config : Config) : Service := ⟨.ofConfig config, [], [], [], [], [], []⟩

/-- What happens at an event. A request is sent at the poll that begins it on the connection. -/
def step (s : Service) : Event → Service
  | .begin event payload =>
    { s with client := (s.client.begin event payload).2, asked := s.asked ++ [(event, payload)] }
  | .poll id now dial =>
    let result := s.client.poll now dial id
    { s with
      client := result.2
      sent :=
        if !s.client.isUnderWay id && result.2.isUnderWay id then s.sent ++ [id] else s.sent
      replies :=
        match result.1 with
        | .pending => s.replies
        | .finished reply => s.replies ++ [(id, reply)] }
  | .peerReads count =>
    { s with
      client := s.client.onConnection 0 (·.befall (.peerReads count))
      read := s.read ++ s.client.unread.take count }
  | .respond response =>
    { s with
      responses := s.responses ++ [response]
      outgoing := s.outgoing ++ response.piece.bytes }
  | .peerWrites count =>
    { s with
      client := s.client.onConnection 0 (·.befall (.peerWrites (s.outgoing.take count)))
      outgoing := s.outgoing.drop count }
  | .reader => { s with client := s.client.onConnection 0 (·.befall .reader) }

section

variable {s : Service} {client : Client} {id now : Nat} {dial : Dial}

theorem step_poll_silent (hpoll : s.client.poll now dial id = (.pending, client))
    (hsame : client.isUnderWay id = s.client.isUnderWay id) :
    s.step (.poll id now dial) = { s with client } := by
  simp [step, hpoll, hsame]

theorem step_poll_sent (hpoll : s.client.poll now dial id = (.pending, client))
    (hbefore : s.client.isUnderWay id = false) (hbehind : client.isUnderWay id = true) :
    s.step (.poll id now dial) = { s with client, sent := s.sent ++ [id] } := by
  simp [step, hpoll, hbefore, hbehind]

theorem step_poll_finished {reply : Reply}
    (hpoll : s.client.poll now dial id = (.finished reply, client))
    (hbehind : client.isUnderWay id = false) :
    s.step (.poll id now dial) = { s with client, replies := s.replies ++ [(id, reply)] } := by
  simp [step, hpoll, hbehind]

end

/-- The state behind events. -/
def run (s : Service) (events : List Event) : Service := events.foldl step s

/-- Something holds of every event in the state in which it happens. -/
def Along (P : Service → Event → Prop) : Service → List Event → Prop
  | _, [] => True
  | s, event :: events => P s event ∧ Along P (s.step event) events

instance decidableAlong (P : Service → Event → Prop) [∀ s event, Decidable (P s event)] :
    (s : Service) → (events : List Event) → Decidable (Along P s events)
  | _, [] => inferInstanceAs (Decidable True)
  | s, event :: events =>
    have := decidableAlong P (s.step event) events
    inferInstanceAs (Decidable (P s event ∧ Along P (s.step event) events))

/-- What is asked of requests and peer: tags are distinct, none of them is that of error messages,
and payloads can be sent; the socket can be dialled; and the peer answers requests that were sent. -/
def Fair (s : Service) : Event → Prop
  | .begin event payload =>
    event ≠ Envelope.errorEvent ∧ event ∉ s.asked.map Prod.fst ∧ ∃ v, payload.toValue = .ok v
  | .poll _ _ dial => ∀ failure, dial ≠ .failed failure
  | .respond response =>
    ∃ id event payload, s.sent[s.responses.length]? = some id ∧
      s.asked[id]? = some (event, payload) ∧ response.Fits event
  | _ => True

/-- If the reader takes an error message, no unfinished request has been given a reply. -/
def Prompt (s : Service) : Event → Prop
  | .reader => ∀ c ∈ s.client.connections, c.takesError = true →
      ∀ p ∈ s.client.requests, p.2.isReplied c = false
  | _ => True

instance (s : Service) (event : Event) : Decidable (s.Prompt event) :=
  match event with
  | .reader => inferInstanceAs (Decidable (∀ c ∈ s.client.connections, c.takesError = true →
      ∀ p ∈ s.client.requests, p.2.isReplied c = false))
  | .begin _ _ | .poll _ _ _ | .peerReads _ | .respond _ | .peerWrites _ =>
    inferInstanceAs (Decidable True)

/-- What the message of a request is. -/
def IsMessage (s : Service) (id : Nat) (e : Envelope) : Prop :=
  ∃ payload, s.asked[id]? = some (e.event, payload) ∧ payload.toValue = .ok e.data

/-- What a request has to end with: the response to it. -/
def Own (s : Service) (id : Nat) (reply : Reply) : Prop :=
  ∃ (n : Nat) (response : Response), s.sent[n]? = some id ∧ s.responses[n]? = some response ∧
    reply = response.reply

/-- No message is left that is still to be written. -/
def Written (s : Service) : Prop := ∀ c ∈ s.client.connections, c.turns = []

instance (s : Service) : Decidable s.Written :=
  inferInstanceAs (Decidable (∀ c ∈ s.client.connections, c.turns = []))

/-- What becomes of the messages, whatever room there is for them. -/
structure Transmits (s : Service) : Prop where
  once : s.sent.Nodup
  /-- The peer gets them one by one, in the order in which the requests were sent. -/
  messages : ∃ messages, List.Forall₂ s.IsMessage s.sent messages ∧
    s.read ++ s.client.unread <+: Frame.texts messages ∧
    (s.Written ↔ s.read ++ s.client.unread = Frame.texts messages)
  /-- Where there is room for everything, everything is written. -/
  room : (∀ c ∈ s.client.connections, c.outbound.capacity = none) → s.Written
  /-- As long as something is left, polling one of the requests writes as much of it as there is room
  for. -/
  writing : ¬s.Written → ∃ id ∈ s.sent, ∃ left, left ≠ [] ∧
    ∀ now dial, ∀ c ∈ s.client.connections, (s.step (.poll id now dial)).client.unread =
      s.client.unread ++ left.take (c.outbound.room left.length)

/-- Every message is written, every request that was sent has been answered, and every answer has
been processed. -/
structure Idle (s : Service) : Prop where
  written : s.Written
  answered : s.responses.length = s.sent.length
  outgoing : s.outgoing = []
  inbound : ∀ c ∈ s.client.connections, c.inbound.unread = []
  taken : ∀ c ∈ s.client.connections, c.taken = []

end Service

end EnvelopeClient
