import EnvelopeClient.Proofs.Client.Runs
import EnvelopeClient.Proofs.Connection.Transport
import EnvelopeClient.Proofs.Frame.Documents

/-!
# Documents on their way to a reader

`Connection.Brings` says which documents are on their way to the reader of a calm connection, in the
pipe or in what the reader has taken. The peer adds documents behind them, moves their bytes in
pieces of any size, and `Brings.readerStep` says that the reader takes nothing but the first of them.
-/

namespace EnvelopeClient.Connection

open Json EnvelopeClient.Frame

/-- These documents are on their way to the reader, the last bytes not written by the peer yet. -/
structure Brings (c : Connection) (back : List Piece) (outgoing : List UInt8) : Prop where
  calm : c.Calm
  reading : ∃ intake readable, c.reader = .running intake readable false
  inbound : ∃ dropped, Blank dropped ∧
    dropped ++ (c.taken ++ (c.inbound.unread ++ outgoing)) = stream back

variable {c c' : Connection} {back : List Piece} {outgoing : List UInt8}

theorem brings_opened (peer : String) (capacity : Option Nat) :
    Brings (.opened peer capacity) [] [] where
  calm := ⟨rfl, rfl, rfl, ⟨rfl, rfl, rfl, rfl⟩, rfl, rfl⟩
  reading := ⟨_, _, rfl⟩
  inbound := ⟨[], blank_nil, rfl⟩

namespace Brings

/-- The peer has one more document to write. -/
theorem more (h : c.Brings back outgoing) (p : Piece) :
    c.Brings (back ++ [p]) (outgoing ++ p.bytes) where
  calm := h.calm
  reading := h.reading
  inbound := by
    obtain ⟨dropped, hdropped, hbytes⟩ := h.inbound
    refine ⟨dropped, hdropped, ?_⟩
    rw [stream, List.flatMap_append, List.flatMap_singleton]
    rw [stream] at hbytes
    simp only [← hbytes, List.append_assoc]

theorem peerWrite (h : c.Brings back outgoing) (count : Nat) :
    (c.peerWrite (outgoing.take count)).Brings back (outgoing.drop count) where
  calm := ⟨h.calm.isOpen, h.calm.cancelled, h.calm.released, h.calm.outbound, h.calm.trap,
    h.calm.ended⟩
  reading := h.reading
  inbound := by
    obtain ⟨dropped, hdropped, hbytes⟩ := h.inbound
    refine ⟨dropped, hdropped, ?_⟩
    rw [Connection.peerWrite, Inbound.write, List.append_assoc, List.take_append_drop]
    exact hbytes

/-- What users do with the exchange and at the write half is nothing to the documents. -/
theorem aside (h : c.Brings back outgoing) {exchange : Exchange} {outbound : Outbound}
    (turns : List Nat) (nextTurn : Nat) (hopen : exchange.status = .open)
    (houtbound : outbound.Calm) :
    Brings { c with exchange, outbound, turns, nextTurn } back outgoing where
  calm := ⟨hopen, h.calm.cancelled, h.calm.released, houtbound, h.calm.trap, h.calm.ended⟩
  reading := h.reading
  inbound := h.inbound

theorem peerRead (h : c.Brings back outgoing) (count : Nat) :
    (c.peerRead count).Brings back outgoing := by
  refine h.aside c.turns c.nextTurn h.calm.isOpen ?_
  exact ⟨h.calm.outbound.ended, h.calm.outbound.abandoned, h.calm.outbound.writeTrap,
    h.calm.outbound.flushTrap⟩

/-- The reader takes bytes, or finds no whole document, or takes the first document. -/
theorem readerStep (h : c.Brings back outgoing)
    (hshort : ∀ p ∈ back.head?, p.bytes.length ≤ defaultLimit)
    (hstep : c.readerStep = some c') :
    (c'.Brings back outgoing ∧ c'.exchange = c.exchange ∧
      ∀ frame, c.reading? ≠ some (.frame frame)) ∨
    ∃ p left, back = p :: left ∧ c'.Brings left outgoing ∧
      c'.exchange = (c.dispatch p.frame).exchange ∧ c.reading? = some (.frame p.frame) := by
  obtain ⟨intake, readable, hreader⟩ := h.reading
  obtain ⟨dropped, hdropped, hbytes⟩ := h.inbound
  have htaken : c.taken = intake.bytes := by rw [taken, hreader]
  rw [htaken] at hbytes
  have hcalm : ∀ {inbound : Inbound} {reader : Reader}, inbound.trap = none →
      inbound.ended = false → Calm { c with inbound, reader } := by
    intro inbound reader htrap hended
    exact ⟨h.calm.isOpen, h.calm.cancelled, h.calm.released, h.calm.outbound, htrap, hended⟩
  rcases readerStep_cases h.calm hreader hstep with
    ⟨-, n, intake', hreading, hintake, rfl⟩ | ⟨-, intake', hreading, hdecode, rfl⟩ |
    ⟨-, frame, intake', hreading, hdecode, rfl⟩
  · -- bytes move from the pipe to the reader
    refine .inl ⟨⟨hcalm h.calm.trap h.calm.ended, ⟨_, _, rfl⟩, dropped, hdropped, ?_⟩, rfl, ?_⟩
    · rw [← hbytes]
      simp only [taken, hintake, List.append_assoc]
      rw [← List.append_assoc (List.take n _), List.take_append_drop]
    · simp [hreading]
  · -- the front of the next document is kept, or blanks before it are dropped
    rcases decode_stream_short hdropped hbytes hshort with
      ⟨dropped', rest, hnone, hdropped', hrest⟩ | ⟨p, left, rest, -, hsome, -⟩
    · obtain rfl : rest = intake'.bytes := (Prod.mk.inj (hnone.symm.trans hdecode)).2
      exact .inl ⟨⟨hcalm h.calm.trap h.calm.ended, ⟨_, _, rfl⟩, dropped', hdropped', hrest⟩, rfl,
        by simp [hreading]⟩
    · rw [hsome] at hdecode
      cases hdecode
  · rcases decode_stream_short hdropped hbytes hshort with
      ⟨dropped', rest, hnone, -⟩ | ⟨p, left, rest, rfl, hsome, hrest⟩
    · rw [hnone] at hdecode
      cases hdecode
    · obtain ⟨hfound, rfl⟩ := Prod.mk.inj (hsome.symm.trans hdecode)
      cases hfound
      have hnext : Brings { c with reader := .running intake' true false } left outgoing :=
        ⟨hcalm h.calm.trap h.calm.ended, ⟨_, _, rfl⟩, [], blank_nil, hrest⟩
      refine .inr ⟨p, left, rfl, ?_, ?_, hreading⟩
      · obtain ⟨exchange, notices, hsame, hstatus⟩ := exists_dispatch
          { c with reader := .running intake' true false } p.frame
        rw [hsame]
        exact ⟨⟨hstatus.trans h.calm.isOpen, h.calm.cancelled, h.calm.released, h.calm.outbound,
          h.calm.trap, h.calm.ended⟩, hnext.reading, hnext.inbound⟩
      · cases p.frame <;> rfl

/-- If no documents are on their way, the peer has nothing to write. -/
theorem outgoing_eq_nil (h : c.Brings [] outgoing) : outgoing = [] := by
  obtain ⟨dropped, -, hbytes⟩ := h.inbound
  have hbehind := (List.append_eq_nil_iff.mp (List.append_eq_nil_iff.mp hbytes).2).2
  exact (List.append_eq_nil_iff.mp hbehind).2

/-- If no bytes are on their way, no documents are. -/
theorem eq_nil (h : c.Brings back outgoing) (houtgoing : outgoing = [])
    (hunread : c.inbound.unread = []) (htaken : c.taken = []) : back = [] := by
  obtain ⟨dropped, hdropped, hbytes⟩ := h.inbound
  cases back with
  | nil => rfl
  | cons p left =>
    rw [htaken, hunread, houtgoing, List.append_nil, List.append_nil, List.append_nil,
      stream_cons] at hbytes
    have hblank := blank_of_append_left (blank_of_append_right (hbytes ▸ hdropped))
    obtain ⟨behind, htext⟩ := p.document.exists_cons
    have hbrace := hblank 0x7b (by rw [htext]; exact List.mem_cons_self)
    cases hbrace

end Brings

end EnvelopeClient.Connection
