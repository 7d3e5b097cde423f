import EnvelopeClient.Proofs.Inquiry.Hearing
import EnvelopeClient.Proofs.Reception.Streams

/-!
# The first answer to arrive

A peer answers a request by a reply or by an error message. If both arrive, the first is to decide,
and it does where that is the reply, or where the request is polled before the reader comes to a reply
that is behind the error message. Otherwise the reply overtakes the error message: a request that
finds both at once ends with the reply (`first_arrival_decides`, `reply_overtakes_error`).
-/

namespace EnvelopeClient.Inquiry

open Connection Envelope

variable {event : String} {reply error : Nat} {s start : Inquiry} {c : Connection}
  {moves before after : List Move} {heard : List Envelope} {stream sent : List UInt8}

/-! ### Replies behind an error message -/

/-- Whether a request goes on. -/
def isPending (s : Inquiry) : Bool :=
  match s.poll with
  | .pending _ => true
  | .finished _ => false

/-- Whether the reader takes a reply while a request has still to find that an error message came
first. -/
def overtakes (event : String) (heard : List Envelope) (s : Inquiry) (m : Move) : Bool :=
  s.isPending && ((firstArrival? event heard).any fun r => !r.toBool) &&
    (m.hears s.connection).any (·.event = event)

/-- Whether no reply overtakes an error message in moves. -/
def isPrompt (event : String) (heard : List Envelope) (s : Inquiry) : List Move → Bool
  | [] => true
  | m :: moves =>
    !overtakes event heard s m &&
      isPrompt event (heard ++ m.hears s.connection) (s.step m) moves

/-- A reader takes one message at a time. -/
theorem Move.Alone.hears_cases {m : Move} (h : m.Alone) (c : Connection) :
    m.hears c = [] ∨ ∃ e, m.hears c = [e] := by
  cases h with
  | close now => exact .inl rfl
  | poll now => exact .inl rfl
  | incident what =>
    cases what with
    | peerWrites | peerReads | peerEnds | peerAbandons | trap | abort => exact .inl rfl
    | reader =>
      show Trace.delivered (c.reading?.map Entry.read).toList = [] ∨
        ∃ e, Trace.delivered (c.reading?.map Entry.read).toList = [e]
      cases c.reading? with
      | none => exact .inl rfl
      | some r =>
        cases r with
        | frame f =>
          cases f with
          | envelope e => exact .inr ⟨e, rfl⟩
          | malformed reason => exact .inl rfl
        | stop | bytes | ended | failed | rest | finish => exact .inl rfl

theorem isPending_of_step {m : Move} (h : (s.step m).isPending = true) : s.isPending = true := by
  rw [isPending] at h ⊢
  cases hpoll : s.poll with
  | pending call => rfl
  | finished outcome =>
    rw [(step_of_finished hpoll m).1] at h
    cases h

/-- As long as no reply overtakes an error message, a request that goes on would make of all messages
at once what it makes of the first. -/
theorem firstArrival?_eq_together? (hbefore : ∀ m ∈ before, m.Alone)
    (hprompt : isPrompt event heard s (before ++ after) = true)
    (hsame : s.isPending = true → firstArrival? event heard = together? event heard)
    (hpending : (s.run before).isPending = true) :
    firstArrival? event (heard ++ s.heard before) = together? event (heard ++ s.heard before) := by
  induction before generalizing s heard with
  | nil =>
    rw [Inquiry.heard, List.append_nil]
    exact hsame hpending
  | cons m before ih =>
    rw [List.cons_append, isPrompt, Bool.and_eq_true, Bool.not_eq_true'] at hprompt
    rw [Inquiry.heard, ← List.append_assoc]
    refine ih (fun other hother => hbefore other (List.mem_cons_of_mem m hother)) hprompt.2 ?_ hpending
    intro hnext
    have hnow := isPending_of_step hnext
    rcases (hbefore m List.mem_cons_self).hears_cases s.connection with hnone | ⟨e, hone⟩
    · rw [hnone, List.append_nil]
      exact hsame hnow
    · rw [hone]
      refine firstArrival?_eq_together?_concat (hsame hnow) fun failure harrival hevent => ?_
      have hovertakes : overtakes event heard s m = true := by
        simp [overtakes, hnow, harrival, hone, hevent, Except.toBool]
      cases hprompt.1.symm.trans hovertakes

/-! ### Messages on their way to a request -/

/-- What the peer writes in a move. -/
def Move.written : Move → List UInt8
  | .event what => Reception.written what
  | .poll _ _ => []

/-- The peer writes a stream in moves, in any pieces, or a part of it, and ends it, if it does, behind
its last byte. -/
structure Carries (stream : List UInt8) (moves : List Move) : Prop where
  front : moves.flatMap Move.written <+: stream
  ends : ∀ before after, moves = before ++ .event (.incident .peerEnds) :: after →
    before.flatMap Move.written = stream
  /-- No read is told of an end where there is none. -/
  steady : .event (.incident (.trap .read .zero)) ∉ moves

theorem Carries.front_of_append (h : Carries stream (before ++ after)) : Carries stream before where
  front := by
    have hfront := h.front
    rw [List.flatMap_append] at hfront
    exact (List.prefix_append _ _).trans hfront
  ends first last heq := h.ends first (last ++ after) (by rw [heq, List.append_assoc, List.cons_append])
  steady hmem := h.steady (List.mem_append_left _ hmem)

theorem readsFrom_begins {peer : String} {capacity : Option Nat} {payload : Payload}
    {limit : Option Nat}
    (h : Begins event payload limit reply error (.opened peer capacity) [] start) :
    Reception.ReadsFrom stream [] [] start.connection := by
  obtain ⟨registered, listening, c', sending, hreply, herror, hsend, rfl⟩ := h.cases_nil
  obtain ⟨-, herror⟩ := register_of_registerError herror
  have hopened := Reception.readsFrom_opened stream peer capacity
  have hregistered : Reception.ReadsFrom stream [] [] registered := by
    have hnext := hopened.user (.register event) rfl
    rwa [Reception.happen, hreply] at hnext
  have hlistening : Reception.ReadsFrom stream [] [] listening := by
    have hnext := hregistered.user (.register Envelope.errorEvent) rfl
    rwa [Reception.happen, herror] at hnext
  have hnext := hlistening.user (.queue event payload) rfl
  rwa [Reception.happen, hsend] at hnext

/-- Looking for an answer takes nothing off the stream. -/
theorem readsFrom_pollHear (h : Reception.ReadsFrom stream heard sent c) (hgone : c.isGone = false)
    (now : Nat) (deadline : Option Deadline) :
    Reception.ReadsFrom stream heard sent
      (Call.pollHear c now event reply (some error) deadline).2 := by
  rcases pollHear_cases hgone now event reply (some error) deadline with hwaits | ⟨r, hends, -⟩
  · rw [hwaits]
    exact h
  · rw [hends]
    exact (h.user (.drop error) rfl).user (.drop reply) rfl

/-- Nor does a poll. -/
theorem readsFrom_poll (h : Reception.ReadsFrom stream heard sent c) (hgone : c.isGone = false)
    {call : Call} {whole : Bool} (hcall : Asks event reply error call whole) (now : Nat) :
    Reception.ReadsFrom stream heard sent (call.poll c now).2 := by
  cases hcall with
  | hears deadline => exact readsFrom_pollHear h hgone now deadline
  | @sends sending limit hevent =>
    have hsent : Reception.ReadsFrom stream heard sent (c.pollSend sending).2 :=
      h.user (.send sending) rfl
    have hgone' : (c.pollSend sending).2.isGone = false :=
      (changes_pollSend c sending).isGone.trans hgone
    rw [Call.poll]
    cases hsend : c.pollSend sending with
    | mk result c' =>
      rw [hsend] at hsent hgone'
      cases result with
      | pending sending' => exact hsent
      | finished result =>
        cases result with
        | ok _ => exact readsFrom_pollHear hsent hgone' now _
        | error failure => exact (hsent.user (.drop error) rfl).user (.drop reply) rfl

/-- What a request on a fresh connection hears in a run is read off the stream the peer writes. -/
theorem readsFrom_run {peer : String} {capacity : Option Nat} {payload : Payload}
    {limit : Option Nat}
    (hbegins : Begins event payload limit reply error (.opened peer capacity) [] start)
    (hmoves : ∀ m ∈ moves, m.Alone) (hcarries : Carries stream moves) :
    Reception.ReadsFrom stream (start.heard moves) (moves.flatMap Move.written)
      (start.run moves).connection := by
  induction moves using List.reverseRecOn with
  | nil => exact readsFrom_begins hbegins
  | append_singleton moves m ih =>
    have halone : ∀ m ∈ moves, m.Alone := fun m hm => hmoves m (List.mem_append_left _ hm)
    have hreads := ih halone hcarries.front_of_append
    have hfront := hcarries.front
    rw [List.flatMap_append, List.flatMap_singleton] at hfront
    rw [run_concat, heard_concat, List.flatMap_append, List.flatMap_singleton]
    cases m with
    | event what =>
      refine hreads.happen hfront ?_ ?_
      · rintro rfl
        exact hcarries.ends moves [] rfl
      · rintro rfl
        exact hcarries.steady (by simp)
    | poll now looks =>
      cases hmoves _ (List.mem_append_right _ (List.mem_singleton_self _))
      rw [Move.hears, Move.written, List.append_nil, List.append_nil]
      have hhealthy : Healthy (.opened peer capacity) := healthy_run peer capacity []
      cases fares_run hbegins hhealthy Exchange.accounts_opened halone with
      | waits hpoll hcall htold =>
        rw [step_poll hpoll, (inv_run hbegins hhealthy halone).pollOver_atOnce hpoll]
        exact readsFrom_poll hreads htold.isGone hcall now
      | unsent hpoll _ =>
        rw [step_poll_of_finished hpoll]
        exact hreads
      | ended _ _ hpoll _ =>
        rw [step_poll_of_finished hpoll]
        exact hreads

/-! ### What decides a request -/

/-- **The first to arrive decides.** Take a request for another tag than that of error messages, on a
connection where nobody waits, and any run in which nobody else uses it: polls of the request wherever
they fall among the steps of the reader, bytes of the peer in whatever pieces, faults and closes. What
a request that was sent ends with was found by one of its polls: the first reply among the messages the
reader had taken since the request began, else the first error message, or if there was neither, the
failure of a close or that its time was up. If a reply is the first to arrive, or no reply overtakes an
error message, that is what arrived first, whatever else arrives behind it; and as soon as one has
arrived, a poll of a request that was sent ends it so, whatever the time is. If the peer writes a stream
of messages on a fresh connection, the messages taken are the first of them, in their order, however
the stream is cut. -/
theorem first_arrival_decides {peer : String} {capacity : Option Nat}
    {earlier : List Reception.Event} {payload : Payload} {limit : Option Nat}
    (hbegins : Begins event payload limit reply error
      ((Reception.start peer capacity).run earlier).connection [] start)
    (hvacant : ((Reception.start peer capacity).run earlier).connection.pending = 0)
    (hmoves : ∀ m ∈ moves, m.Alone) :
    let s := start.run moves
    let heard := start.heard moves
    (∀ now, ∃ call, start.poll = .pending call ∧
      ((Reception.start peer capacity).run earlier).connection.ask now event payload limit =
        call.poll start.connection now) ∧
    (∀ call, s.poll = .pending call → ∀ now,
      call.pollOver s.connection now .atOnce = call.poll s.connection now ∧
      let s' := s.step (.poll now .atOnce)
      s'.sent = true → ∀ r, firstArrival? event heard = some r →
        (∃ v, r = .ok v) ∨ isPrompt event [] start moves = true →
        s'.poll = .finished (.reply r)) ∧
    (s.sent = true → ∀ outcome, s.poll = .finished outcome →
      ∃ before now after r, moves = before ++ .poll now .atOnce :: after ∧ outcome = .reply r ∧
        Ends event (together? event (start.heard before)) r ∧
        ∀ inbound, heard <+: inbound →
          (∃ v, firstArrival? event inbound = some (.ok v)) ∨ isPrompt event [] start moves = true →
          Ends event (firstArrival? event (start.heard before)) r ∧
            (firstArrival? event (start.heard before) ≠ none →
              firstArrival? event inbound = some r)) ∧
    (earlier = [] → ∀ messages trailing, (∀ m ∈ messages, Frame.Fits Frame.defaultLimit m) →
      Json.Blank trailing → Carries (Frame.wire messages ++ trailing) moves →
      heard <+: messages.map (·.2)) := by
  intro s heard
  have hhealthy := healthy_run peer capacity earlier
  have haccounts := Exchange.accounts_of_pending hhealthy.sound hvacant
  have hfares := fares_run hbegins hhealthy haccounts hmoves
  have hinv : Inv event reply error s := inv_run hbegins hhealthy hmoves
  -- without haste a request that is still there finds what came first
  have hprompt : isPrompt event [] start moves = true → ∀ before after call,
      moves = before ++ after → (start.run before).poll = .pending call →
        firstArrival? event (start.heard before) = together? event (start.heard before) := by
    rintro hprompt before after call rfl hpoll
    exact firstArrival?_eq_together? (fun m hm => hmoves m (List.mem_append_left _ hm)) hprompt
      (fun _ => rfl) (by rw [isPending, hpoll])
  refine ⟨hbegins.ask, ?_, ?_, ?_⟩
  · intro call hcall now
    refine ⟨hinv.pollOver_atOnce hcall now, ?_⟩
    intro s' hsent r harrival hcondition
    have hfound : together? event heard = some r := by
      rcases hcondition with ⟨v, rfl⟩ | hcondition
      · exact together?_of_reply harrival
      · rw [← hprompt hcondition moves [] call (List.append_nil _).symm hcall]
        exact harrival
    cases hfares with
    | waits hpoll hcall' htold => exact (polled hinv hpoll hcall' htold now).finished hsent hfound
    | unsent hpoll _ => cases hcall.symm.trans hpoll
    | ended _ _ hpoll _ => cases hcall.symm.trans hpoll
  · intro hsent outcome houtcome
    cases hfares with
    | waits hpoll _ _ => cases houtcome.symm.trans hpoll
    | unsent _ hunsent => cases hsent.symm.trans hunsent
    | @ended before after now call r hsplit hbefore hpoll hends =>
      refine ⟨before, now, after, r, hsplit, Poll.finished.inj (houtcome.symm.trans hpoll), hends, ?_⟩
      intro inbound hinbound hcondition
      have hfront : start.heard before <+: inbound := by
        refine List.IsPrefix.trans ?_ hinbound
        rw [show heard = start.heard moves from rfl, hsplit, heard_append]
        exact List.prefix_append _ _
      have hsame : firstArrival? event (start.heard before) =
          together? event (start.heard before) := by
        rcases hcondition with ⟨v, hv⟩ | hcondition
        · exact firstArrival?_eq_together?_of_reply hfront hv
        · exact hprompt hcondition before _ call hsplit hbefore
      rw [hsame]
      refine ⟨hends, fun hsome => ?_⟩
      obtain ⟨r', hr'⟩ := Option.ne_none_iff_exists'.mp hsome
      rw [hends.eq_of_decided hr']
      exact firstArrival?_of_front hfront (hsame.trans hr')
  · rintro rfl messages trailing hfits htrailing hcarries
    obtain ⟨r, -, hdelivered, -, hstreams⟩ := readsFrom_run hbegins hmoves hcarries
    have hheard := hstreams.delivered hfits htrailing
    rwa [hdelivered] at hheard

/-- A message that refuses a request. -/
def refusal : Envelope := ⟨Envelope.errorEvent, .string "no"⟩

/-- A message that grants it. -/
def grant : Envelope := ⟨"a", .int 1⟩

/-- The peer refuses a request that was sent, grants it all the same, and the reader takes so many
steps. -/
def contradicted (steps : Nat) : List Move :=
  [.poll 0 .atOnce, .event (.incident (.peerWrites (refusal.toBytes ++ grant.toBytes)))] ++
    List.replicate steps (.event (.incident .reader))

theorem alone_contradicted (steps : Nat) : ∀ m ∈ contradicted steps, m.Alone := by
  intro m hm
  rcases List.mem_append.mp hm with hm | hm
  · rcases List.mem_cons.mp hm with rfl | hm
    · exact .poll 0
    · cases List.mem_singleton.mp hm
      exact .incident _
  · cases List.eq_of_mem_replicate hm
    exact .incident _

/-- Polled when the reader has come to the error message, the request ends with it. -/
theorem first_arrival_decides_in_turn :
    fresh.heard (contradicted 2) <+: [refusal, grant] ∧
      ((fresh.run (contradicted 2)).step (.poll 9 .atOnce)).poll = .failed (.remote "no") := by
  have hbegins : Begins "a" (.int 1) (some 5) 0 1
      ((Reception.start "peer" none).run []).connection [] fresh := begins_fresh
  have hcarries : Carries (Frame.wire [([], refusal), ([], grant)] ++ []) (contradicted 2) := by
    refine ⟨by decide +kernel, ?_, by simp [contradicted]⟩
    intro before after heq
    have hends : .event (.incident .peerEnds) ∈ contradicted 2 := by simp [heq]
    simp [contradicted] at hends
  have hfits : ∀ m ∈ [([], refusal), ([], grant)], Frame.Fits Frame.defaultLimit m := by
    simp only [List.forall_mem_cons]
    exact ⟨⟨nofun, ⟨trivial, rfl, by decide⟩, by decide +kernel⟩,
      ⟨nofun, ⟨rfl, rfl, by decide⟩, by decide +kernel⟩, nofun⟩
  obtain ⟨-, hpolls, -, hstream⟩ := first_arrival_decides hbegins rfl (alone_contradicted 2)
  exact ⟨hstream rfl _ [] hfits nofun hcarries, (hpolls _ rfl 9).2 rfl _ rfl (.inr rfl)⟩

/-- **A reply overtakes an error message.** What the peer sends does not tell how a request ends: if it
is not polled before the reader has come to the reply as well, it ends with the reply, though the error
message came first. -/
theorem reply_overtakes_error :
    let polled : List Move := [.poll 1 .atOnce]
    let reads : List Move := List.replicate 2 (.event (.incident .reader))
    let between := contradicted 2 ++ polled ++ reads
    let behind := contradicted 2 ++ reads ++ polled
    firstArrival? "a" [refusal, grant] = some (.error (.remote "no")) ∧
      fresh.heard between = [refusal, grant] ∧
      (fresh.run between).poll = .failed (.remote "no") ∧
      fresh.heard behind = [refusal, grant] ∧
      (fresh.run behind).poll = .finished (.reply (.ok (.int 1))) :=
  ⟨rfl, rfl, rfl, rfl, rfl⟩

end EnvelopeClient.Inquiry
