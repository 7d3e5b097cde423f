import EnvelopeClient.Proofs.Connection.Carrying
import EnvelopeClient.Proofs.Service.Waiters

/-!
# The connection all requests are sent on

`Connection.Line` says where the messages and the responses to them are: the messages are written in
the order in which they were sent, as far as there is room, and of the responses the first have been
given to waiters and the others are on their way back. What the peer does, what the reader does and
what requests do keeps it. `Line.readerStep` says that the reader takes nothing but these responses,
in their order; who is given them is told in `Attends.deliver`.
-/

namespace EnvelopeClient

open Json EnvelopeClient.Frame

namespace Connection

/-- The messages are those that were sent, written as far as the backlog says, and of the responses
to them `done` have been given to waiters and `back` are on their way. -/
structure Line (c : Connection) (messages : List Envelope) (done back : List Response)
    (read outgoing : List UInt8) (b : Backlog) : Prop
    extends c.Carries messages read b (back.map Response.piece) outgoing where
  attends : c.exchange.Attends (messages.map (·.event)) done

variable {c c' : Connection} {messages : List Envelope} {done back : List Response}
  {read outgoing : List UInt8} {b : Backlog} {n : Nat}

theorem line_opened (peer : String) (capacity : Option Nat) :
    Line (.opened peer capacity) [] [] [] [] [] .empty where
  toCarries := carries_opened peer capacity
  attends := Exchange.attends_opened

namespace Line

/-! ### What the peer does -/

theorem peerReads (h : c.Line messages done back read outgoing b) (count : Nat) :
    (c.peerRead count).Line messages done back (read ++ c.outbound.unread.take count) outgoing
      b where
  toCarries := h.toCarries.peerRead count
  attends := h.attends

theorem respond (h : c.Line messages done back read outgoing b) (r : Response) :
    c.Line messages done (back ++ [r]) read (outgoing ++ r.piece.bytes) b where
  toCarries := by
    rw [List.map_append]
    exact h.toCarries.more r.piece
  attends := h.attends

theorem peerWrites (h : c.Line messages done back read outgoing b) (count : Nat) :
    (c.peerWrite (outgoing.take count)).Line messages done back read (outgoing.drop count) b where
  toCarries := h.toCarries.peerWrite count
  attends := h.attends

/-! ### What the reader does -/

/-- A reader that is to take an error message takes one. -/
theorem takesError_of_reading {e : Envelope}
    (hreader : ∃ intake readable, c.reader = .running intake readable false)
    (hreading : c.reading? = some (.frame (.envelope e))) (he : e.event = Envelope.errorEvent) :
    c.takesError = true := by
  obtain ⟨intake, readable, hreader⟩ := hreader
  rw [reading?, hreader] at hreading
  rw [takesError, hreader]
  cases hcancelled : c.cancelled with
  | true => simp [hcancelled] at hreading
  | false =>
    cases readable with
    | false =>
      cases hread : (c.inbound.read intake.makeRoom.room).1 <;>
        simp [hcancelled, hread] at hreading
    | true =>
      cases hdecode : (intake.decode defaultLimit).1 with
      | none => simp [hcancelled, hdecode] at hreading
      | some frame =>
        obtain rfl : frame = .envelope e := by simpa [hcancelled, hdecode] using hreading
        simpa [hdecode] using he

/-- The reader takes bytes, or finds no whole response, or takes the first response that is on its
way. -/
theorem readerStep (h : c.Line messages done back read outgoing b)
    (hfits : ∀ r ∈ back.head?,
      ∃ event, (messages.map (·.event))[done.length]? = some event ∧ r.Fits event)
    (hstep : c.readerStep = some c') :
    c'.Line messages done back read outgoing b ∨
      ∃ r left event, back = r :: left ∧
        (messages.map (·.event))[done.length]? = some event ∧
        (r.refuses = true → c.takesError = true) ∧
        ((c.exchange.deliver (r.message event)).2.Attends (messages.map (·.event)) (done ++ [r]) →
          c'.Line messages (done ++ [r]) left read outgoing b) := by
  have hshort : ∀ r ∈ back.head?, r.piece.bytes.length ≤ defaultLimit := by
    intro r hr
    obtain ⟨event, -, hfit⟩ := hfits r hr
    exact hfit.short
  rcases h.toCarries.readerStep (Response.short_head hshort) hstep with
    ⟨hcarries, hexchange, -⟩ | ⟨p, pieces, hpieces, hcarries, hexchange, hreading⟩
  · exact .inl ⟨hcarries, hexchange ▸ h.attends⟩
  · obtain ⟨r, left, rfl, rfl, rfl⟩ := List.map_eq_cons_iff.mp hpieces
    obtain ⟨event, hevent, hfit⟩ := hfits r rfl
    rw [hfit.frame] at hexchange hreading
    refine .inr ⟨r, left, event, rfl, hevent, ?_, ?_⟩
    · intro hrefuses
      exact takesError_of_reading h.reading hreading (by rw [Response.message, if_pos hrefuses])
    · intro hattends
      exact ⟨hcarries, hexchange ▸ hattends⟩

/-! ### What requests do -/

/-- Requests that end do not concern the others. -/
theorem keeps (h : c.Line messages done back read outgoing b) {x : Exchange}
    (hx : c.exchange.Keeps x) :
    Line { c with exchange := x } messages done back read outgoing b where
  toCarries := h.toCarries.aside (hx.status.trans h.calm.isOpen)
  attends := h.attends.keeps hx

/-- A request is sent behind all others, and nothing changes for them. -/
theorem ask (h : c.Line messages done back read outgoing b) (hsound : c.exchange.Sound)
    (hdone : done.length ≤ messages.length) {e : Envelope} (hevent : e.event ≠ Envelope.errorEvent)
    {payload : Payload} (hpayload : payload.toValue = .ok e.data) (now : Nat) :
    ∃ c' b', c.ask now e.event payload none =
        (.pending (b'.call messages.length e.event (2 * messages.length)
          (some (2 * messages.length + 1)) none none), c') ∧
      c'.Line (messages ++ [e]) done back read outgoing b' ∧
      ∀ m < messages.length, b'.rest? m = b.rest? m := by
  obtain ⟨x, henlists, hattends⟩ := h.attends.register hsound h.calm.isOpen
    (by rwa [List.length_map]) hevent
  rw [List.length_map] at henlists
  obtain ⟨c', b', hask, hcarries, rfl, hothers⟩ :=
    h.toCarries.ask henlists hpayload none (fun ms hms => by cases hms) now
  refine ⟨c', b', hask, ⟨hcarries, ?_⟩, hothers⟩
  rw [List.map_append]
  exact hattends

/-- A request that was sent is polled. If its message is written by then and it was given its
response it ends with it; else it goes on. -/
theorem poll (h : c.Line messages done back read outgoing b) {event : String}
    (hn : (messages.map (·.event))[n]? = some event) (now : Nat) :
    ∃ c' b', c'.Line messages done back read outgoing b' ∧ c.Forwards c' messages read b b' n ∧
      ((∃ response, b'.rest? n = none ∧ done[n]? = some response ∧
          (b.call n event (2 * n) (some (2 * n + 1)) none none).poll c now =
            (.finished (.reply response.reply),
              (c'.dropWaiter? (some (2 * n + 1))).dropWaiter (2 * n))) ∨
        (b'.rest? n = none → done[n]? = none) ∧
          (b.call n event (2 * n) (some (2 * n + 1)) none none).poll c now =
            (.pending (b'.call n event (2 * n) (some (2 * n + 1)) none none), c')) := by
  obtain ⟨b', c', deadline, hforwards, hcarries, hexchange, hdeadline, hpoll⟩ :=
    h.toCarries.poll n event (2 * n) (some (2 * n + 1)) none none now
  obtain rfl : deadline = none := hdeadline.elim id id
  have hattends := hexchange ▸ h.attends
  refine ⟨c', b', ⟨hcarries, hattends⟩, hforwards, ?_⟩
  cases hrest : b'.rest? n with
  | some left =>
    rw [hrest] at hpoll
    refine .inr ⟨by simp, ?_⟩
    rw [hpoll, Backlog.call_of_some hrest]
  | none =>
    rw [hrest] at hpoll
    have hhear := pollHear_of_attends hattends hcarries.calm.isGone hn now
    cases hdone : done[n]? with
    | some response =>
      rw [hdone] at hhear
      exact .inl ⟨response, rfl, rfl, hpoll.trans hhear⟩
    | none =>
      rw [hdone] at hhear
      refine .inr ⟨fun _ => rfl, ?_⟩
      rw [Backlog.call_of_none hrest]
      exact hpoll.trans hhear

/-- If nothing is on its way any more, everything has been given to waiters. -/
theorem back_eq_nil (h : c.Line messages done back read outgoing b) (houtgoing : outgoing = [])
    (hunread : c.inbound.unread = []) (htaken : c.taken = []) : back = [] :=
  List.map_eq_nil_iff.mp (h.toBrings.eq_nil houtgoing hunread htaken)

end Line

end Connection

end EnvelopeClient
