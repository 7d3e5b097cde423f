import EnvelopeClient.Proofs.Frame.Stream
import EnvelopeClient.Proofs.Reception.Dispatch

/-!
# A reader and a stream of messages

`Reception.Streams` says that the peer writes a stream of bytes and nothing else, in whatever pieces,
and ends it, if it does, behind the last byte. If that is the stream of some messages, the reader takes
nothing but these messages, in their order (`Streams.delivered`).
-/

namespace EnvelopeClient

open EnvelopeClient.Frame

/-- All that the codec finds in the front of a stream of messages is the front of the messages, if
the stream is found to have ended only where it ends. -/
theorem Trace.codec_front {t : Trace} {messages : List (List UInt8 × Envelope)}
    {trailing : List UInt8} (hfits : ∀ m ∈ messages, Fits defaultLimit m)
    (htrailing : Json.Blank trailing) (hfront : t.chunks.flatten <+: wire messages ++ trailing)
    (hend : t.atEnd = true → t.chunks.flatten = wire messages ++ trailing) :
    t.codec <+: messages.map (.envelope ·.2) := by
  cases hatEnd : t.atEnd with
  | true =>
    -- nothing is left behind the last message
    have hfed : t.fed = (messages.map (.envelope ·.2), []) :=
      feed_wire_from hfits htrailing (hend hatEnd) fun _ => rfl
    have hcodec : t.codec = messages.map (.envelope ·.2) := by
      rw [codec, hatEnd, if_pos rfl, hfed, drainAtEnd_nil, List.append_nil]
    exact hcodec ▸ List.prefix_refl _
  | false =>
    obtain ⟨future, hfuture⟩ := hfront
    have hchunks : [] ++ (t.chunks ++ [future]).flatten = wire messages ++ trailing := by
      rw [List.nil_append, List.flatten_append, List.flatten_singleton, hfuture]
    have hall := feed_wire_from hfits htrailing hchunks fun _ => rfl
    rw [feed_concat] at hall
    rw [codec, hatEnd, if_neg Bool.false_ne_true, List.append_nil]
    exact ⟨_, (Prod.mk.inj hall).1⟩

/-- A read leaves the end of the stream where it is, and comes to it only where nothing is left, or
when it is told so. -/
theorem Inbound.read_cases {p p' : Inbound} {room : Nat} {result : ReadResult}
    (h : p.read room = (result, p')) :
    p'.ended = p.ended ∧ (p'.trap = some .zero → p.trap = some .zero) ∧
      (result = .ended → p.trap = some .zero ∨ p.ended = true ∧ p.unread = []) := by
  unfold Inbound.read at h
  cases htrap : p.trap with
  | some trap =>
    rw [htrap] at h
    cases trap with
    | fails fault =>
      cases h
      exact ⟨rfl, nofun, nofun⟩
    | zero =>
      cases h
      exact ⟨rfl, nofun, fun _ => .inl rfl⟩
  | none =>
    rw [htrap] at h
    by_cases hempty : p.unread.isEmpty
    · simp only [if_pos hempty] at h
      cases h
      refine ⟨rfl, fun hzero => htrap.symm.trans hzero, fun hended => .inr ⟨?_, by simpa using hempty⟩⟩
      cases hdone : p.ended with
      | true => rfl
      | false =>
        rw [hdone] at hended
        cases hended
    · simp only [if_neg hempty] at h
      cases h
      exact ⟨rfl, nofun, nofun⟩

namespace Connection

variable {c c' : Connection} {r : Reading}

/-- What a step of the reader does to the stream of the peer. -/
theorem Reads.inbound (h : Reads c r c') :
    c'.inbound.ended = c.inbound.ended ∧
      (c'.inbound.trap = some .zero → c.inbound.trap = some .zero) ∧
      (r = .ended → c.inbound.trap = some .zero ∨ c.inbound.ended = true ∧ c.inbound.unread = []) := by
  have hdispatch : ∀ (reader : Reader) (f : Frame),
      (dispatch { c with reader } f).inbound = c.inbound := by
    intro reader f
    obtain ⟨exchange, notices, hsame, -⟩ := exists_dispatch { c with reader } f
    rw [hsame]
  cases h with
  | bytes hreader hcancelled hread =>
    obtain ⟨hended, htrap, -⟩ := Inbound.read_cases hread
    exact ⟨hended, htrap, nofun⟩
  | ended hreader hcancelled hread =>
    obtain ⟨hended, htrap, hempty⟩ := Inbound.read_cases hread
    exact ⟨hended, htrap, fun _ => hempty rfl⟩
  | failed hreader hcancelled hread =>
    obtain ⟨hended, htrap, -⟩ := Inbound.read_cases hread
    exact ⟨hended, htrap, nofun⟩
  | frame _ _ _ => exact ⟨by rw [hdispatch], by rw [hdispatch]; exact id, nofun⟩
  | lastFrame _ _ _ => exact ⟨by rw [hdispatch], by rw [hdispatch]; exact id, nofun⟩
  | stop _ _ | rest _ _ _ | finish _ _ _ => exact ⟨rfl, id, nofun⟩

end Connection

namespace Reception

open Connection

/-- The peer writes a stream, and ends it only behind its last byte. -/
structure Streams (stream : List UInt8) (s : Reception) : Prop where
  inv : s.Inv
  front : s.sent <+: stream
  ended : s.connection.inbound.ended = true → s.sent = stream
  steady : s.connection.inbound.trap ≠ some .zero
  atEnd : s.trace.atEnd = true → s.trace.chunks.flatten = stream

theorem streams_start (stream : List UInt8) (peer : String) (capacity : Option Nat) :
    (start peer capacity).Streams stream where
  inv := inv_start peer capacity
  front := List.nil_prefix
  ended h := by cases h
  steady := by simp [start, opened, Inbound.empty]
  atEnd h := by cases h

variable {s : Reception} {stream : List UInt8}

/-- Nothing that comes behind a whole stream is of it. -/
theorem eq_of_prefix_append {bytes more : List UInt8} (h : bytes ++ more <+: stream)
    (hwhole : bytes = stream) : bytes ++ more = stream :=
  h.eq_of_length_le (by rw [List.length_append, hwhole]; exact Nat.le_add_right _ _)

/-- The stream ends when the peer ends it, and reads are told of an end by nothing else. -/
theorem inbound_happen (c : Connection) (what : Event) :
    ((happen c what).inbound.ended = true →
      c.inbound.ended = true ∨ what = .incident .peerEnds) ∧
    ((happen c what).inbound.trap = some .zero →
      c.inbound.trap = some .zero ∨ what = .incident (.trap .read .zero)) := by
  rcases aside_happen c what with ⟨haside, -⟩ | ⟨what, rfl⟩
  · obtain ⟨outbound, turns, nextTurn, cancelled, hsame⟩ := haside.same
    rw [hsame]
    exact ⟨.inl, .inl⟩
  · cases what with
    | peerWrites bytes => exact ⟨.inl, .inl⟩
    | peerReads count => exact ⟨.inl, .inl⟩
    | peerEnds => exact ⟨fun _ => .inr rfl, .inl⟩
    | peerAbandons => exact ⟨.inl, .inl⟩
    | abort => exact ⟨.inl, .inl⟩
    | trap operation trap =>
      cases operation with
      | read =>
        refine ⟨.inl, fun h => .inr ?_⟩
        obtain rfl : trap = .zero := Option.some.inj h
        rfl
      | write | flush | shutdown => exact ⟨.inl, .inl⟩
    | reader =>
      show ((c.readerStep.getD c).inbound.ended = true → _) ∧
        ((c.readerStep.getD c).inbound.trap = some .zero → _)
      cases hstep : c.readerStep with
      | none => exact ⟨.inl, .inl⟩
      | some c' =>
        obtain ⟨r, -, hreads⟩ := reads_readerStep hstep
        obtain ⟨hended, htrap, -⟩ := hreads.inbound
        exact ⟨fun h => .inl (hended.symm.trans h), fun h => .inl (htrap h)⟩

/-- A stream is found to have ended where it ends. -/
theorem Streams.unread_of_ended (h : s.Streams stream) {what : Event}
    (hend : Trace.atEnd (entries s.connection what) = true) :
    s.trace.chunks.flatten = stream ∧ (entries s.connection what).chunks = [] := by
  rcases aside_happen s.connection what with ⟨haside, -⟩ | ⟨what, rfl⟩
  · cases (Trace.atEnd_of_unread haside.entries.unread).symm.trans hend
  · cases what with
    | peerWrites | peerReads | peerEnds | peerAbandons | trap | abort => cases hend
    | reader =>
      cases hstep : s.connection.readerStep with
      | none =>
        rw [entries, reading?_of_rest hstep] at hend
        cases hend
      | some c' =>
        obtain ⟨r, hreading, hreads⟩ := reads_readerStep hstep
        rw [entries, hreading] at hend ⊢
        cases r with
        | ended =>
          obtain ⟨hended, hunread⟩ := (hreads.inbound.2.2 rfl).resolve_left h.steady
          refine ⟨?_, rfl⟩
          rw [← h.ended hended, ← h.inv.sent, hunread, List.append_nil]
        | stop | bytes | failed | frame | rest | finish => cases hend

/-- What happens keeps to the stream. -/
theorem Streams.step (h : s.Streams stream) {what : Event}
    (hfront : s.sent ++ written what <+: stream)
    (hends : what = .incident .peerEnds → s.sent = stream)
    (hsteady : what ≠ .incident (.trap .read .zero)) : (s.step what).Streams stream := by
  obtain ⟨hended, htrap⟩ := inbound_happen s.connection what
  have hinv := h.inv.step what
  refine ⟨hinv, hfront, ?_, ?_, ?_⟩
  · intro hnow
    rcases hended hnow with hbefore | hpeer
    · exact eq_of_prefix_append hfront (h.ended hbefore)
    · exact eq_of_prefix_append hfront (hends hpeer)
  · intro hnow
    exact (htrap hnow).elim h.steady hsteady
  · intro hend
    have hchunks : ((s.step what).trace.chunks).flatten <+: stream :=
      (hinv.sent ▸ List.prefix_append _ _).trans hfront
    have hsplit : (s.step what).trace.chunks =
        s.trace.chunks ++ (entries s.connection what).chunks := Trace.chunks_append _ _
    have hcases : (s.trace.atEnd || Trace.atEnd (entries s.connection what)) = true :=
      (Trace.atEnd_append _ _).symm.trans hend
    rw [hsplit, List.flatten_append] at hchunks ⊢
    rcases Bool.or_eq_true_iff.mp hcases with hbefore | hnow
    · exact eq_of_prefix_append hchunks (h.atEnd hbefore)
    · exact eq_of_prefix_append hchunks (h.unread_of_ended hnow).1

/-- The reader takes nothing but the messages of the stream, in their order. -/
theorem Streams.delivered {messages : List (List UInt8 × Envelope)} {trailing : List UInt8}
    (h : s.Streams (wire messages ++ trailing)) (hfits : ∀ m ∈ messages, Fits defaultLimit m)
    (htrailing : Json.Blank trailing) : s.trace.delivered <+: messages.map (·.2) := by
  have hchunks : s.trace.chunks.flatten <+: wire messages ++ trailing :=
    (h.inv.sent ▸ List.prefix_append _ _).trans h.front
  have hcodec := Trace.codec_front hfits htrailing hchunks h.atEnd
  have hframes := (h.inv.follows.front.trans hcodec).filterMap Frame.envelope?
  rw [List.filterMap_map] at hframes
  rw [h.inv.delivered, ← List.filterMap_eq_map]
  exact hframes

/-! ### Connections that read from a stream -/

/-- A connection that has read from a stream of which so much was sent, and taken these messages. -/
def ReadsFrom (stream : List UInt8) (heard : List Envelope) (sent : List UInt8) (c : Connection) :
    Prop :=
  ∃ s : Reception, s.connection = c ∧ s.trace.delivered = heard ∧ s.sent = sent ∧ s.Streams stream

theorem readsFrom_opened (stream : List UInt8) (peer : String) (capacity : Option Nat) :
    ReadsFrom stream [] [] (.opened peer capacity) :=
  ⟨start peer capacity, rfl, rfl, rfl, streams_start stream peer capacity⟩

variable {heard : List Envelope} {sent : List UInt8} {c : Connection}

theorem ReadsFrom.happen (h : ReadsFrom stream heard sent c) {what : Event}
    (hfront : sent ++ written what <+: stream) (hends : what = .incident .peerEnds → sent = stream)
    (hsteady : what ≠ .incident (.trap .read .zero)) :
    ReadsFrom stream (heard ++ (entries c what).delivered) (sent ++ written what)
      (happen c what) := by
  obtain ⟨s, rfl, rfl, rfl, hstreams⟩ := h
  exact ⟨s.step what, rfl, Trace.delivered_append _ _, rfl, hstreams.step hfront hends hsteady⟩

/-- Whether users do something, and not the peer or the transport. -/
def Event.isOfUsers : Event → Bool
  | .incident _ => false
  | _ => true

/-- What users do is nothing to the stream. -/
theorem ReadsFrom.user (h : ReadsFrom stream heard sent c) (what : Event)
    (huser : what.isOfUsers = true) : ReadsFrom stream heard sent (Reception.happen c what) := by
  have hother : ∀ incident, what ≠ .incident incident := by
    rintro incident rfl
    cases huser
  obtain ⟨haside, hwritten⟩ := (aside_happen c what).resolve_right fun ⟨incident, heq⟩ =>
    hother incident heq
  have hfront : sent ++ written what <+: stream := by
    obtain ⟨s, -, -, rfl, hstreams⟩ := h
    rw [hwritten, List.append_nil]
    exact hstreams.front
  have hnext := h.happen hfront (fun heq => absurd heq (hother _)) (hother _)
  rwa [haside.entries.delivered, hwritten, List.append_nil, List.append_nil] at hnext

end Reception

end EnvelopeClient
