import EnvelopeClient.Client.Dialling
import EnvelopeClient.Client.Operation
import EnvelopeClient.Scenario.Script

/-!
# A client against a scripted peer

A `Scenario` is a client in a tree of files with a scripted peer behind the socket. One step lets
a number of requests run side by side to their ends.

Time stands still while anything can happen. The peer reads what was written, and each of its
bursts is taken in by the client's readers before the requests run again. When no more can come,
the clock moves on by the time limit of a request. A socket without a size limit and a listener
that answers at once leave nothing to wait for in between: after the first round every request is
finished, or it is written and waits for its answer.
-/

namespace EnvelopeClient

/-- A client and its surroundings. -/
structure Scenario where
  client : Client
  files : Files
  /-- Milliseconds since the start. -/
  now : Nat

/-- A scenario within a step, with the replies of the requests finished so far. -/
structure Scenario.Round where
  scenario : Scenario
  replies : List (Nat × Reply)

namespace Scenario

/-- A fresh client in a tree of files. -/
def start (config : Config) (files : Files) : Scenario := ⟨.ofConfig config, files, 0⟩

/-- How many connections the peer has taken so far. -/
def accepted (s : Scenario) : Nat := s.client.connections.length

/-- What dialling the client's socket comes to. -/
def dial (s : Scenario) : Dial :=
  .ofResult s.client.config.socketPath (s.files.dial s.client.config.socketPath)

/-- Nobody listens any more; connections stay up. -/
def stopListening (s : Scenario) : Scenario := { s with files := s.files.stopListening }

/-- Whether neither side has hung up on a connection. -/
def isUp (c : Connection) : Bool :=
  !c.inbound.ended && !c.outbound.ended

/-- The client's reader takes in a burst, as much at a time as the socket holds. -/
def receiveBurst (burst : Burst) (c : Connection) : Connection :=
  let c := (socketChunks burst.bytes).foldl (fun c chunk => (c.peerWrite chunk).settle) c
  (if burst.hangsUp then c.peerEnd.peerAbandon else c).settle

namespace Round

/-- Polls one request. -/
def pollOne (r : Round) (id : Nat) : Round :=
  let s := r.scenario
  match s.client.poll s.now s.dial id with
  | (.pending, client) => { r with scenario := { s with client } }
  | (.finished reply, client) =>
    { r with scenario := { s with client }, replies := r.replies ++ [(id, reply)] }

/-- Polls every unfinished request once, in the order in which they began. -/
def pollAll (r : Round) : Round :=
  (r.scenario.client.requests.map (·.1)).foldl pollOne r

/-- One burst of the peer on a connection, if it is up. -/
def burst (id : Nat) (r : Round) (b : Burst) : Round :=
  let s := r.scenario
  let client := s.client.onConnection id fun c => if isUp c then receiveBurst b c else c
  { r with scenario := { s with client } }.pollAll

/-- The peer acts on a connection. -/
def perform (r : Round) (id : Nat) (actions : List PeerAction) : Round :=
  (Burst.ofActions actions).foldl (burst id) r

/-- Moves the clock on by a request's time limit, if there is one. -/
def passTime (r : Round) : Round :=
  match r.scenario.client.config.timeouts.request? with
  | none => r
  | some limit =>
    { r with scenario := { r.scenario with now := r.scenario.now + limit } }.pollAll

/-- The requests without an end are given up, and the readers come to rest. -/
def close (r : Round) : Round :=
  let s := r.scenario
  let client := (s.client.requests.map (·.1)).foldl Client.drop s.client
  { r with scenario := { s with client := client.settle } }

end Round

/-- Takes what has been written on each connection, in the order of their opening. -/
def readRequests (s : Scenario) : List (Nat × List WireRequest) × Scenario :=
  let reads := s.client.connections.mapIdx fun id c => (id, WireRequest.ofBytes c.outbound.drain.1)
  let connections := s.client.connections.map fun c => { c with outbound := c.outbound.drain.2 }
  (reads, { s with client := { s.client with connections } })

/-- What the peer reads on each connection, and does about it, in the order of their opening. -/
def plan (script : Script) (reads : List (Nat × List WireRequest)) :
    List (Nat × List (WireRequest × List PeerAction)) :=
  (reads.foldl (fun (count, plan) (id, requests) =>
    let talk := script.conversation count requests
    (count + talk.length, plan ++ [(id, talk)])) (0, [])).2

/-- Begins requests in order. -/
def beginAll (c : Client) (requests : List Operation.Request) : List Nat × Client :=
  requests.foldl (fun (ids, c) request =>
    let (id, c) := c.begin request.event request.payload
    (ids ++ [id], c)) ([], c)

/-- What a step of requests came to. -/
structure Result where
  /-- The outcome of each request, unless it never ends. -/
  replies : List (Option Reply)
  /-- The bytes of every request the peer has read. -/
  wire : List (List UInt8)

/-- Runs requests side by side to their ends. -/
def run (s : Scenario) (requests : List Operation.Request) (script : Script) : Result × Scenario :=
  let (ids, client) := beginAll s.client requests
  let round := Round.pollAll ⟨{ s with client }, []⟩
  let (reads, scenario) := round.scenario.readRequests
  let talks := plan script reads
  let round := talks.foldl (fun r (id, talk) => r.perform id (talk.flatMap (·.2)))
    { round with scenario }
  let round := round.passTime.close
  let replies := (ids.zip requests).map fun (id, request) =>
    (round.replies.lookup id).map request.conclude
  (⟨replies, talks.flatMap fun (_, talk) => talk.map (·.1.bytes)⟩, round.scenario)

/-- The peer acts on every connection that is up. -/
def peerActs (s : Scenario) (actions : List PeerAction) : Scenario :=
  let round := (List.range s.accepted).foldl (fun r id => Round.perform r id actions) ⟨s, []⟩
  round.close.scenario

end Scenario

end EnvelopeClient
