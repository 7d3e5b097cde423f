import EnvelopeClient.Client.Basic
import EnvelopeClient.Json.Shape

/-!
# Operations with typed replies

A request's reply may be wanted in a certain shape; one that does not have it is a protocol
failure. The named operations of a server are `echo`, which sends a text back, and `pid`, which
tells the number of the server's process.
-/

namespace EnvelopeClient

open Json

/-- The failure of a reply that does not have the expected shape. -/
def unexpectedReply (event : String) (mismatch : Mismatch) : Failure :=
  .protocol s!"unexpected '{event}' reply: {mismatch.message}"

/-- What is made of a reply by reading its value. -/
def Reply.readAs {α : Type} (event : String) (read : Value → Except Mismatch α) :
    Reply → Except Failure α
  | .ok v => (read v).mapError (unexpectedReply event)
  | .error failure => .error failure

/-- A request together with what is expected of its reply. -/
structure Operation.Request where
  event : String
  payload : Payload
  /-- The expected shape; without one any reply will do. -/
  shape : Option Shape

/-- What a caller makes of a reply: the value in the expected shape. -/
def Operation.Request.conclude (r : Operation.Request) (reply : Reply) : Reply :=
  match r.shape with
  | some shape => reply.readAs r.event shape.read
  | none => reply

namespace Operation

/-- The tag of the echo operation. -/
def echoEvent : String := "echo"

/-- The tag of the process-number query. -/
def pidEvent : String := "pid"

/-- Asks the server to send a text back. -/
def echo (message : String) : Request := ⟨echoEvent, .string message, some .string⟩

/-- The text that was sent back. -/
def echoed (reply : Reply) : Except Failure String :=
  reply.readAs echoEvent Value.asString

/-- Asks the server for its process number. -/
def pid : Request := ⟨pidEvent, .string "", some .int32⟩

/-- The process number that was told. -/
def processNumber (reply : Reply) : Except Failure Int :=
  reply.readAs pidEvent Value.asInt32

end Operation

end EnvelopeClient
