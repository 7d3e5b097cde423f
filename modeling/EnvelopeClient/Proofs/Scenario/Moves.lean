import EnvelopeClient.Proofs.Client.Answers
import EnvelopeClient.Scenario.Basic

/-!
# A scripted run is a run

What a client does against a scripted peer is one of its runs: every step of a scenario comes about
by moves of the client, and the replies of the step are the answers of these moves
(`Scenario.exists_moves`). So what holds of every run, in whatever order things happen, holds of a
scenario.
-/

namespace EnvelopeClient

namespace Connection

variable {c c' c'' : Connection}

/-- A connection becomes another by what happens to it without a caller. -/
def Befalls (c c' : Connection) : Prop := ∃ whats : List Incident, whats.foldl befall c = c'

theorem Befalls.refl (c : Connection) : c.Befalls c := ⟨[], rfl⟩

theorem Befalls.trans (h : c.Befalls c') (h' : c'.Befalls c'') : c.Befalls c'' := by
  obtain ⟨first, rfl⟩ := h
  obtain ⟨second, rfl⟩ := h'
  exact ⟨first ++ second, List.foldl_append⟩

theorem befalls (c : Connection) (what : Incident) : c.Befalls (c.befall what) := ⟨[what], rfl⟩

theorem befalls_settleFor (fuel : Nat) (c : Connection) : c.Befalls (settleFor fuel c) := by
  induction fuel generalizing c with
  | zero => exact .refl c
  | succ fuel ih =>
    rw [settleFor]
    cases hstep : c.readerStep with
    | none => exact .refl c
    | some c' =>
      have hreader : c.befall .reader = c' := by rw [befall, hstep, Option.getD_some]
      exact (hreader ▸ befalls c .reader).trans (ih c')

theorem befalls_settle (c : Connection) : c.Befalls c.settle := befalls_settleFor c.work c

/-- The reader takes in a burst. -/
theorem befalls_receiveBurst (burst : Burst) (c : Connection) :
    c.Befalls (Scenario.receiveBurst burst c) := by
  have hchunks : ∀ (chunks : List (List UInt8)) (c : Connection),
      c.Befalls (chunks.foldl (fun c chunk => (c.peerWrite chunk).settle) c) := by
    intro chunks
    induction chunks with
    | nil => exact .refl
    | cons chunk chunks ih =>
      intro c
      exact ((befalls c (.peerWrites chunk)).trans (befalls_settle _)).trans (ih _)
  refine ((hchunks (socketChunks burst.bytes) c).trans ?_).trans (befalls_settle _)
  split
  · exact (befalls _ .peerEnds).trans (befalls _ .peerAbandons)
  · exact .refl _

end Connection

namespace Client

open Connection

variable {c c' c'' : Client} {replies more : List (Nat × Reply)} {k : Nat} {conn conn' : Connection}

/-- A client becomes another by moves that bring these answers. -/
def Comes (c : Client) (replies : List (Nat × Reply)) (c' : Client) : Prop :=
  ∃ moves, c.run moves = c' ∧ c.answers moves = replies

theorem Comes.refl (c : Client) : c.Comes [] c := ⟨[], rfl, rfl⟩

theorem Comes.trans (h : c.Comes replies c') (h' : c'.Comes more c'') :
    c.Comes (replies ++ more) c'' := by
  obtain ⟨first, rfl, rfl⟩ := h
  obtain ⟨second, rfl, rfl⟩ := h'
  exact ⟨first ++ second, run_append c first second, answers_append c first second⟩

theorem comes_move (c : Client) (m : Move) : c.Comes (m.answer? c).toList (c.move m) :=
  ⟨[m], rfl, by rw [answers, answers, List.append_nil]⟩

theorem onConnection_congr {act act' : Connection → Connection}
    (h : ∀ conn, c.connections[k]? = some conn → act conn = act' conn) :
    c.onConnection k act = c.onConnection k act' := by
  rw [onConnection, onConnection]
  congr 1
  refine List.ext_getElem? ?_
  intro j
  rw [List.getElem?_modify, List.getElem?_modify]
  by_cases hj : k = j
  · subst hj
    cases hconn : c.connections[k]? with
    | none => rfl
    | some conn => simp [h conn hconn]
  · simp [hj]

theorem onConnection_onConnection (c : Client) (k : Nat) (act act' : Connection → Connection) :
    (c.onConnection k act).onConnection k act' = c.onConnection k (act' ∘ act) := by
  rw [onConnection, onConnection, onConnection, List.modify_modify_eq]

/-- What happens to a connection without a caller comes about by moves that answer nothing. -/
theorem comes_befalls (whats : List Incident) (c : Client) (k : Nat) :
    c.Comes [] (c.onConnection k (whats.foldl befall)) := by
  induction whats generalizing c with
  | nil =>
    have hsame : c.onConnection k (([] : List Incident).foldl befall) = c := by
      exact congrArg (fun connections => { c with connections }) (List.modify_id k c.connections)
    rw [hsame]
    exact .refl c
  | cons what whats ih =>
    have hnext := (comes_move c (.incident k what)).trans (ih (c.move (.incident k what)))
    rwa [move, onConnection_onConnection] at hnext

theorem comes_onConnection {act : Connection → Connection}
    (h : ∀ conn, c.connections[k]? = some conn → conn.Befalls (act conn)) :
    c.Comes [] (c.onConnection k act) := by
  cases hconn : c.connections[k]? with
  | none =>
    rw [onConnection_of_missing hconn]
    exact .refl c
  | some conn =>
    obtain ⟨whats, hact⟩ := h conn hconn
    have hsame : c.onConnection k act = c.onConnection k (whats.foldl befall) := by
      refine onConnection_congr ?_
      intro other hother
      cases hconn.symm.trans hother
      exact hact.symm
    rw [hsame]
    exact comes_befalls whats c k

/-- So does what happens to every connection. -/
theorem comes_map {act : Connection → Connection}
    (h : ∀ conn : Connection, conn.Befalls (act conn))
    (c : Client) : c.Comes [] { c with connections := c.connections.map act } := by
  have hrest : ∀ rest before : List Connection,
      Comes { c with connections := before ++ rest } []
        { c with connections := before ++ rest.map act } := by
    intro rest
    induction rest with
    | nil =>
      intro before
      exact .refl _
    | cons conn rest ih =>
      intro before
      have hfirst : Comes { c with connections := before ++ conn :: rest } []
          { c with connections := (before ++ [act conn]) ++ rest } := by
        have hmodify : (before ++ conn :: rest).modify before.length act =
            before ++ [act conn] ++ rest := by
          rw [List.modify_eq_take_drop, List.take_left, List.drop_left, List.append_assoc]
          rfl
        rw [← hmodify]
        exact comes_onConnection (c := { c with connections := before ++ conn :: rest })
          fun conn _ => h conn
      have hnext := hfirst.trans (ih (before ++ [act conn]))
      rwa [List.append_assoc] at hnext
  exact hrest c.connections []

end Client

/-- The move that begins a request. -/
def Operation.Request.begins (request : Operation.Request) : Client.Move :=
  .begin request.event request.payload

namespace Scenario

open Round

variable {r r' r'' : Round}

/-- A round goes on by moves of its client, and takes note of what they answer. -/
def Round.LeadsTo (r r' : Round) : Prop :=
  ∃ replies, r.scenario.client.Comes replies r'.scenario.client ∧ r'.replies = r.replies ++ replies

namespace Round

theorem LeadsTo.refl (r : Round) : r.LeadsTo r := ⟨[], .refl _, (List.append_nil _).symm⟩

theorem LeadsTo.trans (h : r.LeadsTo r') (h' : r'.LeadsTo r'') : r.LeadsTo r'' := by
  obtain ⟨first, hfirst, hreplies⟩ := h
  obtain ⟨second, hsecond, hreplies'⟩ := h'
  exact ⟨first ++ second, hfirst.trans hsecond, by rw [hreplies', hreplies, List.append_assoc]⟩

/-- The client moves, and nobody is answered. -/
theorem leadsTo_of_comes {scenario : Scenario} (h : r.scenario.client.Comes [] scenario.client) :
    r.LeadsTo { r with scenario } := ⟨[], h, (List.append_nil _).symm⟩

theorem leadsTo_foldl {α : Type} {step : Round → α → Round}
    (h : ∀ (r : Round) a, r.LeadsTo (step r a)) (items : List α) (r : Round) :
    r.LeadsTo (items.foldl step r) := by
  induction items generalizing r with
  | nil => exact .refl r
  | cons a items ih => exact (h r a).trans (ih (step r a))

theorem leadsTo_pollOne (r : Round) (id : Nat) : r.LeadsTo (r.pollOne id) := by
  have hmove := Client.comes_move r.scenario.client (.poll id r.scenario.now r.scenario.dial)
  rw [Client.Move.answer?, Client.move] at hmove
  rw [pollOne]
  cases hpoll : r.scenario.client.poll r.scenario.now r.scenario.dial id with
  | mk result client =>
    rw [hpoll] at hmove
    cases result with
    | pending => exact ⟨[], hmove, (List.append_nil _).symm⟩
    | finished reply => exact ⟨[(id, reply)], hmove, rfl⟩

theorem leadsTo_pollAll (r : Round) : r.LeadsTo r.pollAll := leadsTo_foldl leadsTo_pollOne _ r

theorem leadsTo_burst (id : Nat) (r : Round) (b : Burst) : r.LeadsTo (r.burst id b) := by
  refine LeadsTo.trans (leadsTo_of_comes ?_) (leadsTo_pollAll _)
  refine Client.comes_onConnection ?_
  intro conn _
  split
  · exact Connection.befalls_receiveBurst b conn
  · exact .refl conn

theorem leadsTo_perform (r : Round) (id : Nat) (actions : List PeerAction) :
    r.LeadsTo (r.perform id actions) := leadsTo_foldl (leadsTo_burst id) _ r

theorem leadsTo_passTime (r : Round) : r.LeadsTo r.passTime := by
  rw [passTime]
  split
  · exact .refl r
  · next limit _ =>
    have hwaits : r.LeadsTo { r with
        scenario := { r.scenario with now := r.scenario.now + limit } } := leadsTo_of_comes (.refl _)
    exact hwaits.trans (leadsTo_pollAll _)

end Round

/-- The peer reads what has been written. -/
theorem comes_readRequests (s : Scenario) : s.client.Comes [] s.readRequests.2.client := by
  have hmap : (s.readRequests.2.client : Client) = { s.client with
      connections := s.client.connections.map fun c =>
        { c with outbound := c.outbound.drain.2 } } := rfl
  rw [hmap]
  refine Client.comes_map ?_ s.client
  intro conn
  refine ⟨[.peerReads conn.outbound.unread.length], ?_⟩
  simp [Connection.befall, Connection.peerRead, Outbound.drain]

theorem beginAll_concat (c : Client) (requests : List Operation.Request)
    (request : Operation.Request) :
    beginAll c (requests ++ [request]) =
      ((beginAll c requests).1 ++ [(beginAll c requests).2.nextRequest],
        (beginAll c requests).2.move request.begins) := by
  rw [beginAll, List.foldl_concat]
  rfl

theorem nextRequest_begins (c : Client) (requests : List Operation.Request) :
    (c.run (requests.map (·.begins))).nextRequest = c.nextRequest + requests.length := by
  induction requests generalizing c with
  | nil => rfl
  | cons request requests ih =>
    refine (ih (c.move request.begins)).trans ?_
    rw [List.length_cons]
    exact Nat.add_right_comm _ 1 _

/-- Requests begin in order, one number after the other. -/
theorem beginAll_eq (c : Client) (requests : List Operation.Request) :
    beginAll c requests =
      (List.range' c.nextRequest requests.length, c.run (requests.map (·.begins))) := by
  induction requests using List.reverseRecOn with
  | nil => rfl
  | append_singleton requests request ih =>
    rw [beginAll_concat, ih, nextRequest_begins, List.map_append, List.length_append,
      List.length_singleton, List.range'_1_concat]
    exact congrArg (Prod.mk _) (Client.run_concat c _ request.begins).symm

theorem answers_begins (c : Client) (requests : List Operation.Request) :
    c.answers (requests.map (·.begins)) = [] := by
  induction requests generalizing c with
  | nil => rfl
  | cons request requests ih => exact ih _

/-- A round in which the requests have come to their ends, if they come to one. -/
theorem exists_round (s : Scenario) (requests : List Operation.Request) (script : Script) :
    ∃ r : Round, Round.LeadsTo ⟨{ s with client := (beginAll s.client requests).2 }, []⟩ r ∧
      (s.run requests script).1.replies = ((beginAll s.client requests).1.zip requests).map
        fun p => (r.replies.lookup p.1).map p.2.conclude := by
  let begun : Round := ⟨{ s with client := (beginAll s.client requests).2 }, []⟩
  let polled := begun.pollAll
  let read : Round := { polled with scenario := polled.scenario.readRequests.2 }
  let talks := plan script polled.scenario.readRequests.1
  let answered := talks.foldl (fun r talk => r.perform talk.1 (talk.2.flatMap (·.2))) read
  refine ⟨answered.passTime, ?_, ?_⟩
  · have hread : polled.LeadsTo read := leadsTo_of_comes (comes_readRequests _)
    have hanswered : read.LeadsTo answered :=
      leadsTo_foldl (fun r talk => leadsTo_perform r _ _) _ _
    exact (((leadsTo_pollAll begun).trans hread).trans hanswered).trans (leadsTo_passTime answered)
  · -- the requests that are given up at the end are not answered
    simp only [run, close]
    rfl

/-- What requests come to side by side, they come to in a run of the client that begins with them:
every reply is what is made of the answer to its request. -/
theorem exists_moves (config : Config) (files : Files) (requests : List Operation.Request)
    (script : Script) : ∃ moves, requests.map (·.begins) <+: moves ∧
      ∀ i request reply, requests[i]? = some request →
        ((start config files).run requests script).1.replies[i]? = some (some reply) →
        ∃ raw, (i, raw) ∈ (Client.ofConfig config).answers moves ∧
          reply = request.conclude raw := by
  obtain ⟨r, ⟨replies, ⟨moves, -, hanswers⟩, hr⟩, hresult⟩ :=
    exists_round (start config files) requests script
  have hbegins := beginAll_eq (Client.ofConfig config) requests
  have hnumbers : (beginAll (start config files).client requests).1 =
      List.range' 0 requests.length := congrArg Prod.fst hbegins
  have hbegun : (beginAll (start config files).client requests).2 =
      (Client.ofConfig config).run (requests.map (·.begins)) := congrArg Prod.snd hbegins
  refine ⟨requests.map (·.begins) ++ moves, List.prefix_append _ _, ?_⟩
  intro i request reply hrequest hreply
  have hlt : i < requests.length := (List.getElem?_eq_some_iff.mp hrequest).1
  have hzip : ((List.range' 0 requests.length).zip requests)[i]? = some (i, request) := by
    rw [List.getElem?_zip_eq_some]
    exact ⟨by simp [hlt], hrequest⟩
  rw [hresult, hnumbers, List.getElem?_map, hzip] at hreply
  obtain ⟨raw, hraw, rfl⟩ := Option.map_eq_some_iff.mp (Option.some.inj hreply)
  refine ⟨raw, ?_, rfl⟩
  have hmem : (i, raw) ∈ replies := by
    have hlisted := mem_of_lookup hraw
    rwa [hr] at hlisted
  rw [Client.answers_append, answers_begins, ← hbegun]
  exact hanswers.symm ▸ hmem

end Scenario

end EnvelopeClient
