import EnvelopeClient.Proofs.Frame.Documents

/-!
# Messages survive any cutting of their stream

A stream of messages with blanks between them, cut anywhere and fed chunk by chunk, comes out as
exactly those messages (`feed_wire`), as it is a stream of their documents. The limit on what a
buffer may hold only has to allow each message with the blanks before it. Without blanks
(`texts`), nothing is dropped between two messages, and `drain_texts` says what a buffer gives up
and what it keeps.
-/

namespace EnvelopeClient

open Json Utf8

namespace Frame

/-! ### One message at the front of a buffer -/

/-- A message behind blanks is decoded, whatever follows it. -/
theorem decode_message {blanks : List UInt8} {e : Envelope} (hblank : Blank blanks)
    (htravels : e.data.Travels) (limit : Nat) (rest : List UInt8) :
    decode limit (blanks ++ (e.toBytes ++ rest)) = (some (.envelope e), rest) :=
  decode_document hblank (e.document_toBytes htravels) limit rest

/-- A part of a message is kept as it is while the limit allows. -/
theorem decode_part {blanks q : List UInt8} {e : Envelope} {limit : Nat} (hblank : Blank blanks)
    (htravels : e.data.Travels) (hq : q <+: e.toBytes) (hne : q ≠ []) (hproper : q ≠ e.toBytes)
    (hlimit : (blanks ++ q).length ≤ limit) :
    decode limit (blanks ++ q) = (none, blanks ++ q) := by
  rw [decode_document_part hblank (e.document_toBytes htravels) hq hne hproper,
    if_neg (Nat.not_lt_of_le hlimit)]

/-! ### A buffer of messages -/

/-- Messages one after the other, each with the blanks before it. -/
def wire : List (List UInt8 × Envelope) → List UInt8
  | [] => []
  | (blanks, e) :: rest => blanks ++ (e.toBytes ++ wire rest)

/-- A message that survives a decoder with this limit, together with the blanks before it. -/
structure Fits (limit : Nat) (message : List UInt8 × Envelope) : Prop where
  blank : Blank message.1
  travels : message.2.data.Travels
  short : message.1.length + message.2.toBytes.length ≤ limit

/-- A message as a piece of a stream of documents. -/
def Fits.piece {limit : Nat} {message : List UInt8 × Envelope} (h : Fits limit message) : Piece :=
  ⟨message.1, message.2.toBytes, message.2.document, h.blank, message.2.document_toBytes h.travels⟩

/-- Messages are a stream of their documents. -/
theorem stream_pieces {limit : Nat} {messages : List (List UInt8 × Envelope)}
    (hfits : ∀ m ∈ messages, Fits limit m) :
    stream (messages.pmap (fun _ h => h.piece) hfits) = wire messages := by
  induction messages with
  | nil => rfl
  | cons m messages ih => rw [List.pmap_cons, stream_cons, ih, wire]; rfl

/-! ### Messages with nothing between them -/

/-- Messages one right after the other. -/
def texts (messages : List Envelope) : List UInt8 := messages.flatMap Envelope.toBytes

theorem texts_cons (e : Envelope) (messages : List Envelope) :
    texts (e :: messages) = e.toBytes ++ texts messages :=
  List.flatMap_cons

theorem texts_append (messages more : List Envelope) :
    texts (messages ++ more) = texts messages ++ texts more :=
  List.flatMap_append

theorem texts_singleton (e : Envelope) : texts [e] = e.toBytes :=
  List.flatMap_singleton _ _

theorem eq_nil_of_texts {messages : List Envelope} (h : texts messages = []) : messages = [] := by
  cases messages with
  | nil => rfl
  | cons e messages =>
    rw [texts_cons, List.append_eq_nil_iff] at h
    exact absurd h.1 e.toBytes_ne_nil

/-- A buffer that holds the front of such a stream gives up its first message if it holds that
whole, and keeps all it holds if not. -/
theorem decode_texts {limit : Nat} {messages : List Envelope} {buffer future : List UInt8}
    (hfits : ∀ e ∈ messages, Fits limit ([], e)) (h : buffer ++ future = texts messages) :
    decode limit buffer = (none, buffer) ∨
      ∃ e rest left, messages = e :: left ∧ decode limit buffer = (some (.envelope e), rest) ∧
        rest ++ future = texts left := by
  cases messages with
  | nil =>
    obtain rfl := (List.append_eq_nil_iff.mp h).1
    exact .inl (decode_blank blank_nil limit)
  | cons e left =>
    obtain ⟨-, htravels, hshort⟩ := hfits e List.mem_cons_self
    have hsplit : buffer ++ future = [] ++ (e.toBytes ++ texts left) := by
      rw [h, texts_cons, List.nil_append]
    rcases split_document hsplit e.toBytes_ne_nil with
      ⟨blanks, hblanks, -⟩ | ⟨q, rfl, hprefix, hne, hproper, -⟩ | ⟨rest, rfl, hrest⟩
    · obtain rfl := (List.append_eq_nil_iff.mp hblanks.symm).1
      exact .inl (decode_blank blank_nil limit)
    · have hle := hprefix.length_le
      simp only [List.length_nil, Nat.zero_add] at hshort
      exact .inl (decode_part blank_nil htravels hprefix hne hproper
        (by simp only [List.nil_append]; omega))
    · exact .inr ⟨e, rest, left, rfl, decode_message blank_nil htravels limit rest, hrest⟩

/-- Drained, it gives up all messages it holds whole. -/
theorem drain_texts {limit : Nat} {messages : List Envelope} {buffer future : List UInt8}
    (hfits : ∀ e ∈ messages, Fits limit ([], e)) (h : buffer ++ future = texts messages) :
    ∃ done left rest, drain limit buffer = (done.map .envelope, rest) ∧ messages = done ++ left ∧
      rest ++ future = texts left := by
  induction messages generalizing buffer with
  | nil =>
    rcases decode_texts hfits h with hdecode | ⟨e, rest, left, hmessages, -⟩
    · exact ⟨[], [], buffer, drain_of_none hdecode, rfl, h⟩
    · cases hmessages
  | cons first messages ih =>
    rcases decode_texts hfits h with hdecode | ⟨e, rest, left, hmessages, hdecode, hrest⟩
    · exact ⟨[], first :: messages, buffer, drain_of_none hdecode, rfl, h⟩
    · cases hmessages
      obtain ⟨done, left, last, hdrain, hsplit, hlast⟩ :=
        ih (fun e he => hfits e (List.mem_cons_of_mem _ he)) hrest
      refine ⟨first :: done, left, last, ?_, by rw [hsplit]; rfl, hlast⟩
      rw [drain_of_some hdecode, hdrain]
      rfl

/-- The same with a part of one more message behind them. -/
theorem drain_texts_part {limit : Nat} {messages : List Envelope} {e : Envelope}
    {part left buffer future : List UInt8} (hfits : ∀ m ∈ messages ++ [e], Fits limit ([], m))
    (htext : part ++ left = e.toBytes) (hleft : left ≠ [])
    (h : buffer ++ future = texts messages ++ part) :
    ∃ done kept rest, drain limit buffer = (done.map .envelope, rest) ∧
      messages = done ++ kept ∧ rest ++ future = texts kept ++ part := by
  have hwhole : buffer ++ (future ++ left) = texts (messages ++ [e]) := by
    rw [texts_append, texts_singleton, ← htext, ← List.append_assoc, h, List.append_assoc]
  obtain ⟨done, kept, rest, hdrain, hsplit, hrest⟩ := drain_texts hfits hwhole
  -- the last message is not whole, so it is among those that are kept
  rcases List.eq_nil_or_concat kept with rfl | ⟨kept, last, rfl⟩
  · exact absurd (List.append_eq_nil_iff.mp (List.append_eq_nil_iff.mp hrest).2).2 hleft
  · rw [List.concat_eq_append, ← List.append_assoc] at hsplit
    obtain ⟨hmessages, hlast⟩ := List.append_inj' hsplit rfl
    cases hlast
    refine ⟨done, kept, rest, hdrain, hmessages, (List.append_left_inj left).mp ?_⟩
    rw [List.append_assoc, hrest, List.concat_eq_append, texts_append, texts_singleton, ← htext,
      List.append_assoc]

/-! ### A stream cut into chunks -/

theorem feed_wire_from {limit : Nat} {messages : List (List UInt8 × Envelope)}
    {trailing buffer : List UInt8} {chunks : List (List UInt8)}
    (hfits : ∀ m ∈ messages, Fits limit m) (htrailing : Blank trailing)
    (h : buffer ++ chunks.flatten = wire messages ++ trailing)
    (hend : chunks.flatten = [] → buffer = []) :
    feed limit buffer chunks = (messages.map (.envelope ·.2), []) := by
  rw [← stream_pieces hfits] at h
  obtain ⟨done, left, found, hpieces, hframes, hcase⟩ :=
    feed_stream_from limit blank_nil h hend
  rcases hcase with ⟨rfl, hclean⟩ | ⟨p, more, rfl, hlong, -⟩
  · obtain ⟨rfl, hrest⟩ := hclean htrailing
    rw [List.append_nil] at hpieces hframes
    have hdone : done.map Piece.frame = messages.map (.envelope ·.2) := by
      rw [← hpieces, List.map_pmap]
      exact List.pmap_eq_map hfits
    exact Prod.ext (hframes.trans hdone) hrest
  · -- no message is beyond the limit
    have hp : p ∈ messages.pmap (fun _ h => h.piece) hfits := by simp [hpieces]
    obtain ⟨m, hm, rfl⟩ := List.mem_pmap.mp hp
    have hshort := (hfits m hm).short
    simp only [Piece.bytes, Fits.piece, List.length_append] at hlong
    omega

/-- **Messages survive any cutting of their stream.** However a stream of messages with blanks
before, between and behind them is cut into chunks, a decoder that is drained behind each chunk
yields those messages in their order and nothing else, and keeps nothing. -/
theorem feed_wire {limit : Nat} {messages : List (List UInt8 × Envelope)} {trailing : List UInt8}
    {chunks : List (List UInt8)} (hfits : ∀ m ∈ messages, Fits limit m)
    (htrailing : Blank trailing) (hchunks : chunks.flatten = wire messages ++ trailing) :
    feed limit [] chunks = (messages.map (.envelope ·.2), []) :=
  feed_wire_from hfits htrailing hchunks fun _ => rfl

/-- A stream cut inside a character and inside an escape. -/
theorem feed_wire_split :
    feed 64 []
      [[0x20, 0x7b, 0x22, 0x65, 0x76, 0x65, 0x6e, 0x74, 0x22, 0x3a, 0x22, 0xc3],
        [0xa9, 0x22, 0x2c, 0x22, 0x64, 0x61, 0x74, 0x61, 0x22, 0x3a, 0x5b, 0x2d, 0x31, 0x32, 0x2c,
          0x22, 0x5c],
        [0x6e, 0x22, 0x5d, 0x7d, 0x09]] =
      ([.envelope ⟨"é", .array [.int (-12), .string "\n"]⟩], []) := by
  have hleading : Blank [0x20] := by
    intro b hb
    rw [List.mem_singleton.mp hb]
    rfl
  have htrailing : Blank [0x09] := by
    intro b hb
    rw [List.mem_singleton.mp hb]
    rfl
  have hfits : ∀ m ∈ [([0x20], ⟨"é", .array [.int (-12), .string "\n"]⟩)], Fits 64 m := by
    intro m hm
    obtain rfl := List.mem_singleton.mp hm
    exact ⟨hleading, ⟨⟨rfl, trivial, trivial⟩, rfl, by decide⟩, by decide⟩
  exact feed_wire hfits htrailing (by decide)

end Frame

end EnvelopeClient
