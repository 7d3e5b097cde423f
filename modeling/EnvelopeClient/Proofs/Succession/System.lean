import EnvelopeClient.Proofs.Service.System

/-!
# Requests that are made one after another

On one client a request is made when the one before has ended, with its answer or because its time
was up. The peer mirrors every message once, in the order in which they come, but as late as it
likes. `Succession` is such a service, together with how many answers its reader has taken and, for
every request that was sent, the messages whose answers were late by then.
-/

namespace EnvelopeClient

/-- The text of a response is one of a message, and not beyond the limit. -/
structure Response.Mirrors (r : Response) (e : Envelope) : Prop where
  frame : r.piece.frame = .envelope e
  short : r.piece.bytes.length ≤ Frame.defaultLimit

/-- Whether a frame is taken. -/
def Reading.isFrame : Reading → Bool
  | .frame _ => true
  | _ => false

namespace Service

/-- What is asked of requests and peer: a request is made when no other is unfinished, and every
message is mirrored. -/
def InTurn (s : Service) : Event → Prop
  | .begin _ _ => s.client.requests = []
  | .respond response =>
    ∃ id e, s.sent[s.responses.length]? = some id ∧ s.IsMessage id e ∧ response.Mirrors e
  | _ => True

/-- Whether the reader takes a frame at an event. -/
def hears (s : Service) : Event → Bool
  | .reader => ((s.client.connections[0]?).bind Connection.reading?).any Reading.isFrame
  | _ => false

/-- The message of a request, if it can be sent. -/
def message? (s : Service) (id : Nat) : Option Envelope :=
  (s.asked[id]?).bind fun (event, payload) =>
    match payload.toValue with
    | .ok data => some ⟨event, data⟩
    | .error _ => none

theorem message?_eq_some {s : Service} {id : Nat} {e : Envelope} (h : s.IsMessage id e) :
    s.message? id = some e := by
  obtain ⟨payload, hasked, hpayload⟩ := h
  rw [message?, hasked, Option.bind_some]
  simp only [hpayload]

end Service

/-- A service whose requests are made one after another. -/
structure Succession where
  service : Service
  /-- How many answers the reader has taken. -/
  heard : Nat
  /-- Every request that was sent, with the messages before it whose answers the reader had not taken
  when it was sent. -/
  late : List (Nat × List Envelope)

namespace Succession

/-- Nothing has been asked. -/
def start (config : Config) : Succession := ⟨.start config, 0, []⟩

/-- What happens at an event. -/
def step (s : Succession) (event : Service.Event) : Succession where
  service := s.service.step event
  heard := if s.service.hears event then s.heard + 1 else s.heard
  late := s.late ++ ((s.service.step event).sent.drop s.service.sent.length).map fun id =>
    (id, (s.service.sent.drop s.heard).filterMap s.service.message?)

/-- The state behind events. -/
def run (s : Succession) (events : List Service.Event) : Succession := events.foldl step s

/-- A request that ends with data has got that of the first message of its tag among those that were
late when it was sent and its own. -/
def Returns (s : Succession) (id : Nat) (v : Json.Value) : Prop :=
  ∃ late e first, (id, late) ∈ s.late ∧ s.service.IsMessage id e ∧
    (late ++ [e]).find? (·.event = e.event) = some first ∧ v = first.data

/-- An event at which nothing is sent concerns what was late of no request. -/
theorem step_of_unsent {s : Succession} {event : Service.Event}
    (hsent : (s.service.step event).sent = s.service.sent) :
    s.step event = { s with
      service := s.service.step event
      heard := if s.service.hears event then s.heard + 1 else s.heard } := by
  rw [step, hsent, List.drop_length, List.map_nil, List.append_nil]

/-- At an event at which a request is sent it is noted which messages are late. -/
theorem step_of_sent {s : Succession} {event : Service.Event} {id : Nat}
    (hhears : s.service.hears event = false)
    (hsent : (s.service.step event).sent = s.service.sent ++ [id]) :
    s.step event = { s with
      service := s.service.step event
      late := s.late ++ [(id, (s.service.sent.drop s.heard).filterMap s.service.message?)] } := by
  rw [step, hsent, List.drop_left, hhears]
  rfl

/-- If nothing is taken either, it concerns the service only. -/
theorem step_of_silent {s : Succession} {event : Service.Event}
    (hhears : s.service.hears event = false)
    (hsent : (s.service.step event).sent = s.service.sent) :
    s.step event = { s with service := s.service.step event } := by
  rw [step_of_unsent hsent, hhears]
  rfl

end Succession

end EnvelopeClient
