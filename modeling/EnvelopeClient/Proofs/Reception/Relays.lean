import EnvelopeClient.Proofs.Connection.Asking
import EnvelopeClient.Proofs.Connection.Departure
import EnvelopeClient.Proofs.Reception.Dispatch

/-!
# Where what a waiter is given comes from

Users of a connection register waiters, drop them, write, and close it. They give nobody a message
and leave the reader and its stream alone (`Connection.ByUser`). So every message that a waiter was
given was taken by the reader off what the peer had written, and has the waiter's tag
(`Connection.Relays`). Nothing that can happen to a connection changes that (`Relays.byUsers`,
`Relays.befall`), and a request that ends with data ends with that of such a message
(`Connection.Inquires`).
-/

namespace EnvelopeClient

open Json

/-- A message that a reader can take off these bytes, or off a part of them that came first: cut into
chunks in some way, they have it among their frames. -/
def Frame.Tells (bytes : List UInt8) (e : Envelope) : Prop :=
  ∃ chunks : List (List UInt8), chunks.flatten <+: bytes ∧
    let fed := feed defaultLimit [] chunks
    .envelope e ∈ fed.1 ++ (drainAtEnd defaultLimit fed.2).1

theorem Frame.Tells.mono {bytes more : List UInt8} {e : Envelope} (h : Tells bytes e)
    (hfront : bytes <+: more) : Tells more e := by
  obtain ⟨chunks, hchunks, he⟩ := h
  exact ⟨chunks, hchunks.trans hfront, he⟩

namespace Exchange

/-- Every message that a waiter was given is one of these, and has the tag of the waiter. -/
structure GaveOnly (messages : List Envelope) (x : Exchange) : Prop where
  sound : x.Sound
  given : ∀ id v, x.outcome? id = some (.ok v) → ⟨x.eventOf id, v⟩ ∈ messages

variable {x y : Exchange} {messages : List Envelope} {id : Nat}

theorem lt_of_outcome? {r : Reply} (h : x.outcome? id = some r) : id < x.mailboxes.length := by
  refine Nat.lt_of_not_le ?_
  intro hle
  rw [outcome?_of_length_le hle] at h
  cases h

theorem gaveOnly_opened : GaveOnly [] opened where
  sound := sound_opened
  given id v h := by cases lt_of_outcome? h

/-- Somebody does something for which nobody is given a message. -/
theorem GaveOnly.of_given (h : x.GaveOnly messages) (hsound : y.Sound)
    (hgiven : ∀ id v, y.outcome? id = some (.ok v) → x.outcome? id = some (.ok v))
    (hevent : ∀ id < x.mailboxes.length, y.eventOf id = x.eventOf id) : y.GaveOnly messages where
  sound := hsound
  given id v hv := by
    have hbefore := hgiven id v hv
    rw [hevent id (lt_of_outcome? hbefore)]
    exact h.given id v hbefore

theorem GaveOnly.register (h : x.GaveOnly messages) {event : String}
    (hy : x.register event = .ok (id, y)) : y.GaveOnly messages := by
  refine h.of_given (h.sound.register hy) ?_ fun _ => eventOf_register h.sound hy
  intro other v hv
  rwa [outcome?_register h.sound hy] at hv

theorem GaveOnly.cancel (h : x.GaveOnly messages) (id : Nat) : (x.cancel id).GaveOnly messages := by
  have hkeeps := keeps_cancel x id
  refine h.of_given (h.sound.cancel id) ?_ fun other _ => hkeeps.eventOf other
  intro other v hv
  rwa [hkeeps.outcome?] at hv

theorem GaveOnly.close (h : x.GaveOnly messages) (reason : String) :
    (x.close reason).GaveOnly messages := by
  refine h.of_given (h.sound.close reason) ?_ fun other _ => eventOf_close h.sound reason other
  intro other v hv
  rw [outcome?_close h.sound] at hv
  split at hv
  · cases hv
  · exact hv

theorem GaveOnly.deliver (h : x.GaveOnly messages) (e : Envelope) :
    (x.deliver e).2.GaveOnly (messages ++ [e]) where
  sound := h.sound.deliver e
  given id v hv := by
    rw [eventOf_deliver h.sound]
    rcases outcome?_deliver h.sound e id with hsame | ⟨-, hevent, hgiven⟩
    · exact List.mem_append_left _ (h.given id v (hsame.symm.trans hv))
    · cases hgiven.symm.trans hv
      rw [hevent]
      exact List.mem_append_right _ (List.mem_singleton_self e)

/-- A step of the reader hands out nothing but the message it takes. -/
theorem GaveOnly.read (h : x.GaveOnly messages) (r : Reading) :
    ((Trace.acts [.read r]).foldl act x).GaveOnly
      (messages ++ (Trace.frames [.read r]).filterMap Frame.envelope?) := by
  cases r with
  | frame f =>
    cases f with
    | envelope e => exact h.deliver e
    | malformed reason => exact (List.append_nil messages).symm ▸ h
  | stop | failed _ | finish => exact (List.append_nil messages).symm ▸ h.close _
  | bytes _ | ended | rest => exact (List.append_nil messages).symm ▸ h

end Exchange

/-- A request's call waits for a message with a tag. -/
def Call.Awaits (x : Exchange) (event : String) : Call → Prop
  | .ask reply _ _ _ | .hear _ reply _ _ => reply < x.mailboxes.length ∧ x.eventOf reply = event
  | _ => False

/-- It does so whatever the exchange leads to. -/
theorem Call.Awaits.leadsTo {call : Call} {x y : Exchange} {event : String}
    (h : call.Awaits x event) (hsound : x.Sound) (hleads : x.LeadsTo y) : call.Awaits y event := by
  have hkeeps : ∀ {reply}, reply < x.mailboxes.length ∧ x.eventOf reply = event →
      reply < y.mailboxes.length ∧ y.eventOf reply = event := by
    rintro reply ⟨hlt, rfl⟩
    exact ⟨Nat.lt_of_lt_of_le hlt (hleads.length_le hsound), hleads.eventOf_eq hsound hlt⟩
  cases call with
  | ask | hear => exact hkeeps h
  | receive | send | request | close => cases h

namespace Connection

open Exchange

/-! ### What users do -/

/-- One thing that a user does to a connection, or that becomes of it when nobody refers to it. -/
inductive ByUser (c : Connection) : Connection → Prop where
  | register {event : String} {id : Nat} {x : Exchange}
      (h : c.exchange.register event = .ok (id, x)) : ByUser c { c with exchange := x }
  | drop (waiter : Nat) : ByUser c (c.dropWaiter waiter)
  | close (reason : String) : ByUser c (c.closeFor reason)
  /-- It concerns neither the waiters nor the reader's side of the transport. -/
  | aside (outbound : Outbound) (turns : List Nat) (nextTurn : Nat) (cancelled released : Bool) :
      ByUser c { c with outbound, turns, nextTurn, cancelled, released }

/-- One after the other. -/
abbrev ByUsers : Connection → Connection → Prop := Relation.ReflTransGen ByUser

variable {c c' c'' : Connection} {event : String} {sent : List UInt8} {payload : Payload}

theorem ByUser.evolves (h : ByUser c c') :
    ∃ reason ids, Evolves reason ids c.exchange c'.exchange := by
  cases h with
  | register h => exact ⟨"", [], .register h (.refl _)⟩
  | drop waiter => exact ⟨"", [waiter], .letGo (.cancel (List.mem_singleton_self _) (.refl _))⟩
  | close reason => exact ⟨reason, [], .close (.refl _)⟩
  | aside => exact ⟨"", [], .refl _⟩

theorem ByUser.gaveOnly (h : ByUser c c') {messages : List Envelope}
    (hgave : c.exchange.GaveOnly messages) : c'.exchange.GaveOnly messages := by
  cases h with
  | register h => exact hgave.register h
  | drop waiter => exact hgave.cancel waiter
  | close reason => exact hgave.close reason
  | aside => exact hgave

theorem ByUser.stream (h : ByUser c c') : c'.reader = c.reader ∧ c'.inbound = c.inbound := by
  cases h <;> exact ⟨rfl, rfl⟩

theorem ByUsers.leadsTo (h : ByUsers c c') : c.exchange.LeadsTo c'.exchange := by
  induction h with
  | refl => exact .refl _
  | tail _ hstep ih => exact ih.tail hstep.evolves

/-- A registration concerns the exchange only. -/
theorem exists_of_register {id : Nat} (h : c.register event = .ok (id, c')) :
    ∃ x, c.exchange.register event = .ok (id, x) ∧ c' = { c with exchange := x } := by
  rw [Connection.register] at h
  cases hregister : c.exchange.register event with
  | error failure =>
    rw [hregister] at h
    cases h
  | ok r =>
    rw [hregister] at h
    cases h
    exact ⟨_, rfl, rfl⟩

theorem byUser_register {id : Nat} (h : c.register event = .ok (id, c')) : ByUser c c' := by
  obtain ⟨x, hx, rfl⟩ := exists_of_register h
  exact .register hx

/-- A waiter that was registered waits for the tag it was registered for. -/
theorem awaits_register (hsound : c.exchange.Sound) {reply : Nat}
    (h : c.register event = .ok (reply, c')) (error : Option Nat) (s : Sending)
    (limit : Option Nat) : (Call.ask reply error s limit).Awaits c'.exchange event := by
  obtain ⟨x, hx, rfl⟩ := exists_of_register h
  obtain ⟨-, rfl, registry, rfl, -⟩ := register_cases hsound hx
  refine ⟨?_, ?_⟩
  · rw [length_register hsound hx]
    exact Nat.lt_succ_self _
  · rw [eventOf_extended, if_pos rfl]

theorem byUsers_registerError {error : Option Nat} (h : c.registerError event = .ok (error, c')) :
    ByUsers c c' := by
  rw [registerError] at h
  split at h
  · cases h
    exact .refl
  · cases hregister : c.register Envelope.errorEvent with
    | error failure =>
      rw [hregister] at h
      cases h
    | ok r =>
      rw [hregister] at h
      cases h
      exact .single (byUser_register hregister)

theorem byUser_beginSend {s : Sending} (h : c.beginSend event payload = .ok (s, c')) :
    ByUser c c' := by
  rw [beginSend] at h
  split at h
  · cases h
  · split at h
    · cases h
      exact .aside c.outbound (c.turns ++ [c.nextTurn]) (c.nextTurn + 1) c.cancelled c.released
    · cases h

theorem byUser_leaveTurns (c : Connection) (turn : Nat) : ByUser c (c.leaveTurns turn) :=
  .aside c.outbound _ c.nextTurn c.cancelled c.released

theorem byUser_outbound (c : Connection) (outbound : Outbound) :
    ByUser c { c with outbound := outbound } :=
  .aside outbound c.turns c.nextTurn c.cancelled c.released

theorem byUsers_pollSend (c : Connection) (s : Sending) : ByUsers c (c.pollSend s).2 := by
  have hsends := sends_pollSend c s
  generalize c.pollSend s = result at hsends
  cases hsends with
  | waits left outbound => exact .single (byUser_outbound c outbound)
  | sent outbound =>
    exact (Relation.ReflTransGen.single (byUser_outbound c outbound)).tail (byUser_leaveTurns _ _)
  | fails outbound fault =>
    have hwritten := Relation.ReflTransGen.single (byUser_outbound c outbound)
    unfold endWrite failWrite
    by_cases hgone : fault.toFailure.isNotConnected
    · simp only [if_pos hgone]
      exact (hwritten.tail (.close peerWentAway)).tail (byUser_leaveTurns _ _)
    · simp only [if_neg hgone]
      exact hwritten.tail (byUser_leaveTurns _ _)

theorem byUsers_dropWaiter? (c : Connection) (error : Option Nat) :
    ByUsers c (c.dropWaiter? error) := by
  cases error with
  | none => exact .refl
  | some id => exact .single (.drop id)

theorem byUsers_dropWaiters (c : Connection) (error : Option Nat) (reply : Nat) :
    ByUsers c ((c.dropWaiter? error).dropWaiter reply) :=
  (byUsers_dropWaiter? c error).tail (.drop reply)

theorem byUsers_drop (c : Connection) (call : Call) : ByUsers c (call.drop c) := by
  cases call with
  | receive waiter deadline keeps => exact .single (.drop waiter)
  | send s => exact .single (byUser_leaveTurns c s.turn)
  | request waiter s =>
    exact (Relation.ReflTransGen.single (byUser_leaveTurns c s.turn)).tail (.drop waiter)
  | close turn => exact .single (byUser_leaveTurns c turn)
  | ask reply error s limit =>
    exact (byUsers_dropWaiters (c.leaveTurns s.turn) error reply).head (byUser_leaveTurns c s.turn)
  | hear tag reply error deadline => exact byUsers_dropWaiters c error reply

theorem byUser_release (c : Connection) : ByUser c c.release :=
  .aside _ c.turns c.nextTurn true true

/-! ### Requests -/

/-- What a poll of a client's request for a tag comes to: it goes on waiting for a message with this
tag, and if it ends with data, that is what a waiter for the tag was given. -/
structure Inquires (event : String) (c : Connection) (result : Poll × Connection) : Prop where
  users : ByUsers c result.2
  pending : ∀ call, result.1 = .pending call → call.Awaits result.2.exchange event
  answer : ∀ outcome v, result.1 = .finished outcome → Client.replyOf outcome = .ok v →
    ∃ during reply, ByUsers c during ∧ during.exchange.eventOf reply = event ∧
      during.exchange.outcome? reply = some (.ok v)

/-- A request that fails. -/
theorem inquires_of_failed {failure : Failure} (h : ByUsers c c') :
    Inquires event c (.failed failure, c') where
  users := h
  pending call heq := by cases heq
  answer outcome v heq hv := by
    cases heq
    cases hv

theorem Inquires.of_byUsers {result : Poll × Connection} (h : Inquires event c' result)
    (hbefore : ByUsers c c') : Inquires event c result where
  users := hbefore.trans h.users
  pending := h.pending
  answer outcome v heq hv := by
    obtain ⟨during, reply, hduring, hgiven⟩ := h.answer outcome v heq hv
    exact ⟨during, reply, hbefore.trans hduring, hgiven⟩

/-- Nobody who is gone is given data. -/
theorem outcome?_ok {id : Nat} {v : Value} (h : c.outcome? id = some (.ok v)) :
    c.exchange.outcome? id = some (.ok v) := by
  rw [outcome?] at h
  split at h
  · next reply hreply => exact hreply.trans h
  · split at h <;> cases h

theorem inquires_pollHear (now : Nat) (tag : String) {reply : Nat} (error : Option Nat)
    (deadline : Option Deadline) (hlt : reply < c.exchange.mailboxes.length)
    (hevent : c.exchange.eventOf reply = event) :
    Inquires event c (Call.pollHear c now tag reply error deadline) := by
  rw [Call.pollHear]
  cases hanswer : Call.verdict? (c.outcome? reply) (error.bind c.outcome?) with
  | some answer =>
    refine ⟨byUsers_dropWaiters c error reply, by simp, ?_⟩
    rintro _ v ⟨⟩ rfl
    exact ⟨c, reply, .refl, hevent, outcome?_ok (verdict?_ok hanswer)⟩
  | none =>
    cases Call.isPast deadline now with
    | some d => exact inquires_of_failed (byUsers_dropWaiters c error reply)
    | none =>
      refine ⟨.refl, ?_, by simp⟩
      rintro _ ⟨⟩
      exact ⟨hlt, hevent⟩

theorem inquires_poll {call : Call} (hsound : c.exchange.Sound)
    (h : call.Awaits c.exchange event) (now : Nat) : Inquires event c (call.poll c now) := by
  cases call with
  | hear tag reply error deadline => exact inquires_pollHear now tag error deadline h.1 h.2
  | ask reply error s limit =>
    have hwrite := byUsers_pollSend c s
    rw [Call.poll]
    cases hsend : c.pollSend s with
    | mk result c' =>
      rw [hsend] at hwrite
      obtain ⟨hlt, hevent⟩ := h.leadsTo hsound hwrite.leadsTo
      cases result with
      | pending s' =>
        refine ⟨hwrite, ?_, by simp⟩
        rintro _ ⟨⟩
        exact ⟨hlt, hevent⟩
      | finished result =>
        cases result with
        | ok _ => exact (inquires_pollHear now s.event error _ hlt hevent).of_byUsers hwrite
        | error failure =>
          exact (inquires_of_failed (byUsers_dropWaiters c' error reply)).of_byUsers hwrite
  | receive | send | request | close => cases h

theorem inquires_ask (hsound : c.exchange.Sound) (now : Nat) (event : String) (payload : Payload)
    (limit : Option Nat) : Inquires event c (c.ask now event payload limit) := by
  rw [ask]
  cases hregister : c.register event with
  | error failure => exact inquires_of_failed .refl
  | ok r =>
    obtain ⟨reply, registered⟩ := r
    have hregistered : ByUsers c registered := .single (byUser_register hregister)
    simp only
    cases herror : registered.registerError event with
    | error failure => exact inquires_of_failed (hregistered.tail (.drop reply))
    | ok q =>
      obtain ⟨error, listening⟩ := q
      have hlistening := byUsers_registerError herror
      have hboth := hregistered.trans hlistening
      simp only
      cases hbegin : listening.beginSend event payload with
      | error failure =>
        exact inquires_of_failed (hboth.trans (byUsers_dropWaiters listening error reply))
      | ok t =>
        obtain ⟨s, sending⟩ := t
        have hsending : ByUsers registered sending := hlistening.tail (byUser_beginSend hbegin)
        have hregisters : Sound registered.exchange := hregistered.leadsTo.sound hsound
        have hawaits := (awaits_register hsound hregister error s limit).leadsTo hregisters
          hsending.leadsTo
        exact (inquires_poll (hsending.leadsTo.sound hregisters) hawaits now).of_byUsers
          (hregistered.trans hsending)

/-! ### What a connection relays -/

/-- A connection of which the peer has written so much: the reader follows the codec, and its waiters
were given nothing but messages it has taken. -/
structure RelaysBy (t : Trace) (sent : List UInt8) (c : Connection) : Prop where
  follows : Follows t c.reader
  bytes : t.chunks.flatten ++ c.inbound.unread = sent
  gave : c.exchange.GaveOnly (t.frames.filterMap Frame.envelope?)

/-- A connection hands out what its peer has sent. -/
def Relays (sent : List UInt8) (c : Connection) : Prop := ∃ t, RelaysBy t sent c

theorem relays_opened (peer : String) (capacity : Option Nat) : Relays [] (.opened peer capacity) :=
  ⟨[], .waits rfl rfl rfl, rfl, gaveOnly_opened⟩

theorem Relays.sound (h : Relays sent c) : c.exchange.Sound := by
  obtain ⟨t, h⟩ := h
  exact h.gave.sound

theorem Relays.byUsers (h : Relays sent c) (husers : ByUsers c c') : Relays sent c' := by
  induction husers with
  | refl => exact h
  | tail _ hstep ih =>
    obtain ⟨t, hfollows, hbytes, hgave⟩ := ih
    obtain ⟨hreader, hinbound⟩ := hstep.stream
    exact ⟨t, hreader ▸ hfollows, hinbound ▸ hbytes, hstep.gaveOnly hgave⟩

theorem Relays.reads (h : Relays sent c) {r : Reading} (hreads : c.Reads r c') :
    Relays sent c' := by
  obtain ⟨t, hfollows, hbytes, hgave⟩ := h
  refine ⟨t ++ [.read r], hfollows.step hreads, ?_, ?_⟩
  · rw [Trace.chunks_append, List.flatten_append, List.append_assoc,
      Reception.sent_of_reads hreads, hbytes]
  · rw [Trace.frames_append, List.filterMap_append, hreads.account.1]
    exact hgave.read r

/-- What happens without a caller: the peer may have written more. -/
theorem Relays.befall (h : Relays sent c) (what : Incident) :
    Relays (sent ++ Reception.written (.incident what)) (c.befall what) := by
  have hquiet : ∀ {c'}, Relays sent c' → Relays (sent ++ []) c' := by simp
  cases what with
  | peerWrites bytes =>
    obtain ⟨t, hfollows, hbytes, hgave⟩ := h
    exact ⟨t, hfollows, by rw [← hbytes, List.append_assoc]; rfl, hgave⟩
  | reader =>
    show Relays (sent ++ []) (c.readerStep.getD c)
    refine hquiet ?_
    cases hstep : c.readerStep with
    | none => exact h
    | some c' =>
      obtain ⟨r, -, hreads⟩ := reads_readerStep hstep
      exact h.reads hreads
  | abort =>
    obtain ⟨t, hfollows, hbytes, hgave⟩ := h
    have hfront : Follows (t ++ [.vanished]) c.reader := hfollows.append rfl rfl rfl
    refine hquiet ⟨t ++ [.vanished], .ended hfront.front (.inr (.inl (by simp))), ?_, ?_⟩
    · rw [Trace.chunks_append]
      exact (List.append_nil t.chunks).symm ▸ hbytes
    · rw [Trace.frames_append]
      exact (List.append_nil t.frames).symm ▸ hgave
  | trap operation trap =>
    obtain ⟨t, hfollows, hbytes, hgave⟩ := h
    cases operation <;> exact hquiet ⟨t, hfollows, hbytes, hgave⟩
  | peerReads | peerEnds | peerAbandons =>
    obtain ⟨t, hfollows, hbytes, hgave⟩ := h
    exact hquiet ⟨t, hfollows, hbytes, hgave⟩

/-- Whatever a waiter was given, the peer has told. -/
theorem Relays.tells (h : Relays sent c) {id : Nat} {v : Value}
    (hv : c.exchange.outcome? id = some (.ok v)) : Frame.Tells sent ⟨c.exchange.eventOf id, v⟩ := by
  obtain ⟨t, hfollows, hbytes, hgave⟩ := h
  obtain ⟨f, hf, he⟩ := List.mem_filterMap.mp (hgave.given id v hv)
  have hframe : f = .envelope ⟨c.exchange.eventOf id, v⟩ := by
    cases f with
    | malformed reason => cases he
    | envelope e => exact congrArg Frame.envelope (Option.some.inj he)
  refine ⟨t.chunks, hbytes ▸ List.prefix_append _ _, ?_⟩
  have hmem : Frame.envelope ⟨c.exchange.eventOf id, v⟩ ∈ t.codec :=
    hfollows.front.subset (hframe ▸ hf)
  rw [Trace.codec] at hmem
  rcases List.mem_append.mp hmem with hfed | hend
  · exact List.mem_append_left _ hfed
  · split at hend
    · exact List.mem_append_right _ hend
    · cases hend

/-- A request that ends with data ends with that of a message the peer has sent, of its own tag. -/
theorem Relays.tells_answer (h : Relays sent c) {result : Poll × Connection}
    (hresult : Inquires event c result) {outcome : Outcome} {v : Value}
    (hfinished : result.1 = .finished outcome) (hv : Client.replyOf outcome = .ok v) :
    Frame.Tells sent ⟨event, v⟩ := by
  obtain ⟨during, reply, husers, rfl, hgiven⟩ := hresult.answer outcome v hfinished hv
  exact (h.byUsers husers).tells hgiven

end Connection

end EnvelopeClient
