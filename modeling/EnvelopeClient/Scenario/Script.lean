import EnvelopeClient.Frame.Decoder

/-!
# A scripted peer

A `Script` says what a peer does for each request it reads. It acts in bursts: everything it sends
up to a pause, and a hang-up right behind it, reaches the client at once.
-/

namespace EnvelopeClient

/-- Something a peer does on a connection. -/
inductive PeerAction where
  /-- Sends the request back as it came. -/
  | reflect
  | send (bytes : List UInt8)
  /-- Waits until the client has taken in what was sent. -/
  | pause
  | hangUp
  deriving DecidableEq

/-- A request as the peer reads it: its tag, and its bytes on the wire. -/
structure WireRequest where
  event : String
  bytes : List UInt8

namespace WireRequest

/-- The requests in what a peer has read, each with its own bytes. -/
def ofBytes (buffer : List UInt8) : List WireRequest :=
  match _h : Frame.decode Frame.defaultLimit buffer with
  | (none, _) => []
  | (some (.malformed _), rest) => ofBytes rest
  | (some (.envelope e), rest) =>
    ⟨e.event, buffer.take (buffer.length - rest.length)⟩ :: ofBytes rest
termination_by buffer.length
decreasing_by all_goals exact Frame.decode_length_lt _h

end WireRequest

/-- What a peer does for the requests of one step. -/
structure Script where
  /-- The actions for each tag; those of `*` are for the tags without any. -/
  on : List (String × List PeerAction)
  /-- With a number here the peer does nothing but act on `release` at the request with that
  number. -/
  hold : Option Nat
  release : List PeerAction

namespace Script

/-- A peer that does nothing. -/
def silent : Script := ⟨[], none, []⟩

/-- The tag that stands for all others. -/
def wildcard : String := "*"

/-- What the peer does for a request, which is the `count`th it reads. -/
def actionsFor (script : Script) (count : Nat) (request : WireRequest) : List PeerAction :=
  match script.hold with
  | some n => if count = n then script.release else []
  | none => ((script.on.lookup request.event).or (script.on.lookup wildcard)).getD []

end Script

namespace PeerAction

/-- An action with the request it answers filled in. -/
def answering (request : WireRequest) : PeerAction → PeerAction
  | .reflect => .send request.bytes
  | action => action

end PeerAction

/-- What the peer does on one connection for requests that lie there to be read, after `count`
requests elsewhere: the requests it reads, each with its actions. A hang-up ends the reading. -/
def Script.conversation (script : Script) (count : Nat) :
    List WireRequest → List (WireRequest × List PeerAction)
  | [] => []
  | request :: rest =>
    let actions := (script.actionsFor (count + 1) request).map (·.answering request)
    (request, actions) ::
      if PeerAction.hangUp ∈ actions then [] else script.conversation (count + 1) rest

/-- The most bytes a socket holds for the other side to read. -/
def socketChunk : Nat := 219264

/-- Bytes as they pass through a socket, one filling after the other. -/
def socketChunks (bytes : List UInt8) : List (List UInt8) :=
  if bytes.length ≤ socketChunk then [bytes]
  else bytes.take socketChunk :: socketChunks (bytes.drop socketChunk)
termination_by bytes.length
decreasing_by
  simp only [List.length_drop, socketChunk] at *
  omega

theorem flatten_socketChunks (bytes : List UInt8) : (socketChunks bytes).flatten = bytes := by
  fun_induction socketChunks bytes with
  | case1 => simp
  | case2 bytes _ ih => simp [ih]

/-- What reaches the client at once. -/
structure Burst where
  bytes : List UInt8
  hangsUp : Bool

namespace Burst

/-- Puts bytes in front of the first burst. -/
def prepend (bytes : List UInt8) : List Burst → List Burst
  | [] => [⟨bytes, false⟩]
  | first :: rest => { first with bytes := bytes ++ first.bytes } :: rest

/-- The bursts of a list of actions; nothing follows a hang-up. -/
def ofActions : List PeerAction → List Burst
  | [] => [⟨[], false⟩]
  | .reflect :: rest => ofActions rest
  | .send bytes :: rest => prepend bytes (ofActions rest)
  | .pause :: rest => ⟨[], false⟩ :: ofActions rest
  | .hangUp :: _ => [⟨[], true⟩]

end Burst

end EnvelopeClient
