import EnvelopeClient.Proofs.Frame.Drain
import EnvelopeClient.Proofs.Frame.Message

/-!
# Documents in a stream

A stream of object documents with blanks between them, cut anywhere and fed chunk by chunk, comes
out as the frames of those documents, up to one that is longer than the limit (`feed_documents`).
At the front of a buffer a document is decoded whatever follows it (`decode_document`), and a part
of one is kept or, beyond the limit, given up (`decode_document_part`). So as long as no document is
given up, nothing inside a document is ever taken for one.
-/

namespace EnvelopeClient.Frame

open Json

/-- The frame for an incomplete document beyond the limit. -/
def tooLong (limit : Nat) : Frame := .malformed s!"frame too long: exceeded {limit} bytes"

/-! ### One document at the front of a buffer -/

variable {blanks text : List UInt8} {v : Value}

/-- A document behind blanks is decoded, whatever follows it. -/
theorem decode_document (hblank : Blank blanks) (hdocument : Document text v) (limit : Nat)
    (rest : List UInt8) :
    decode limit (blanks ++ (text ++ rest)) = (some (ofDocument v), rest) := by
  have hfirst : firstByte? (blanks ++ (text ++ rest)) = some 0x7b := by
    obtain ⟨behind, rfl⟩ := hdocument.exists_cons
    rw [firstByte?_blank_append hblank]
    rfl
  obtain ⟨p, b, t, rfl, hpass, hdone⟩ := hdocument.passes
  have hscan : scan .initial 0 (blanks ++ (p ++ [b] ++ rest)) = .complete v rest := by
    rw [scan_blank_append hblank, List.append_assoc, scan_of_passes hpass, List.singleton_append,
      scan, hdone]
  exact decode_of_complete (front_of_brace hfirst hscan) limit

/-- A part of a document is kept as it is while the limit allows, and given up beyond it. -/
theorem decode_document_part {q : List UInt8} (hblank : Blank blanks)
    (hdocument : Document text v) (hq : q <+: text) (hne : q ≠ []) (hproper : q ≠ text)
    (limit : Nat) :
    decode limit (blanks ++ q) =
      if limit < (blanks ++ q).length then (some (tooLong limit), []) else (none, blanks ++ q) := by
  obtain ⟨t, hrun, what, hfinish⟩ := hdocument.part hq hne hproper
  have hfront : Reading.front (blanks ++ q) = .incomplete what := by
    have hscan := scan_append hrun (0 + blanks.length) []
    rw [List.append_nil, scan, hfinish] at hscan
    rw [Reading.front, scan_blank_append hblank, hscan]
  rw [decode, hfront]
  rfl

/-- Blanks are dropped. -/
theorem decode_blank (hblank : Blank blanks) (limit : Nat) : decode limit blanks = (none, []) := by
  rw [decode, front_of_blank hblank]

theorem drain_nil (limit : Nat) : drain limit [] = ([], []) :=
  drain_of_none (decode_blank blank_nil limit)

/-! ### A buffer of documents -/

/-- A document of a stream with the blanks before it. -/
structure Piece where
  blanks : List UInt8
  text : List UInt8
  value : Value
  blank : Blank blanks
  document : Document text value

namespace Piece

/-- The bytes of a piece. -/
def bytes (p : Piece) : List UInt8 := p.blanks ++ p.text

/-- The frame of a piece's document. -/
def frame (p : Piece) : Frame := ofDocument p.value

end Piece

/-- Pieces one after the other. -/
def stream (pieces : List Piece) : List UInt8 := pieces.flatMap Piece.bytes

theorem stream_cons (p : Piece) (pieces : List Piece) :
    stream (p :: pieces) = p.blanks ++ (p.text ++ stream pieces) := by
  rw [stream, List.flatMap_cons, Piece.bytes, List.append_assoc]
  rfl

/-- Blanks at the front of a stream are those before its first document. -/
theorem exists_blanks_of_dropped {dropped blanks text rest later : List UInt8}
    (hdropped : Blank dropped) (hopens : text.head? = some 0x7b)
    (h : dropped ++ later = blanks ++ (text ++ rest)) :
    ∃ blanks', blanks = dropped ++ blanks' ∧ later = blanks' ++ (text ++ rest) := by
  rcases List.append_eq_append_iff.mp h with ⟨blanks', hblanks, hlater⟩ | ⟨q, hdrop, hq⟩
  · exact ⟨blanks', hblanks, hlater⟩
  · cases q with
    | nil => exact ⟨[], by simpa using hdrop.symm, by simpa using hq.symm⟩
    | cons c q =>
      obtain ⟨behind, rfl⟩ := List.head?_eq_some_iff.mp hopens
      obtain rfl : 0x7b = c := by simpa using congrArg List.head? hq
      have hblank := hdropped 0x7b (by simp [hdrop])
      cases hblank

/-- Where a buffer ends in a stream: inside the blanks or the text of a first document, or not
before its end. -/
theorem split_document {blanks text rest buffer future : List UInt8}
    (h : buffer ++ future = blanks ++ (text ++ rest)) (htext : text ≠ []) :
    (∃ blanks', blanks = buffer ++ blanks' ∧ future = blanks' ++ (text ++ rest)) ∨
    (∃ q, buffer = blanks ++ q ∧ q <+: text ∧ q ≠ [] ∧ q ≠ text ∧ future ≠ []) ∨
    (∃ buffer', buffer = blanks ++ (text ++ buffer') ∧ buffer' ++ future = rest) := by
  rcases List.append_eq_append_iff.mp h with ⟨blanks', hblanks, hfuture⟩ | ⟨q, hbuffer, hq⟩
  · exact .inl ⟨blanks', hblanks, hfuture⟩
  · rcases List.append_eq_append_iff.mp hq.symm with ⟨more, hmore, hfuture⟩ | ⟨buffer', hb, hf⟩
    · by_cases hnil : q = []
      · subst hnil
        exact .inl ⟨[], by simp [hbuffer], by simpa using hq.symm⟩
      by_cases hfull : more = []
      · subst hfull
        exact .inr (.inr ⟨[], by simp [hbuffer, hmore], by simpa using hfuture⟩)
      · refine .inr (.inl ⟨q, hbuffer, ⟨more, hmore.symm⟩, hnil, ?_, ?_⟩)
        · rintro rfl
          exact hfull (List.self_eq_append_right.mp hmore)
        · simp [hfuture, hfull]
    · exact .inr (.inr ⟨buffer', by rw [hbuffer, hb], hf.symm⟩)

/-- What decoding makes of a buffer that holds the front of a stream, behind blanks dropped before:
nothing as long as the first document is not whole, unless it is beyond the limit; then the frame of
that document. -/
theorem decode_stream (limit : Nat) {p : Piece} {pieces : List Piece}
    {tail dropped buffer future : List UInt8} (hdropped : Blank dropped)
    (h : dropped ++ (buffer ++ future) = stream (p :: pieces) ++ tail) :
    (∃ dropped' rest, decode limit buffer = (none, rest) ∧ Blank dropped' ∧
      dropped' ++ (rest ++ future) = stream (p :: pieces) ++ tail ∧ (future = [] → rest = [])) ∨
    (limit < p.bytes.length ∧ decode limit buffer = (some (tooLong limit), [])) ∨
    ∃ rest, decode limit buffer = (some p.frame, rest) ∧ rest ++ future = stream pieces ++ tail := by
  have hfront : dropped ++ (buffer ++ future) =
      p.blanks ++ (p.text ++ (stream pieces ++ tail)) := by
    rw [h, stream_cons, List.append_assoc, List.append_assoc]
  obtain ⟨blanks, hblanks, hsplit⟩ := exists_blanks_of_dropped hdropped p.document.opens hfront
  have hblank : Blank blanks := by
    have hall := p.blank
    rw [hblanks] at hall
    exact blank_of_append_right hall
  rcases split_document hsplit p.document.ne_nil with
    ⟨blanks', rfl, -⟩ | ⟨q, rfl, hprefix, hne, hproper, hopen⟩ | ⟨buffer', rfl, hmore⟩
  · -- only blanks have come, and they are dropped
    have hbuffer := blank_of_append_left hblank
    exact .inl ⟨dropped ++ buffer, [], decode_blank hbuffer limit, blank_append hdropped hbuffer,
      by simpa using h, fun _ => rfl⟩
  · -- a part of the document has come
    have hpart := decode_document_part hblank p.document hprefix hne hproper limit
    by_cases hlimit : limit < (blanks ++ q).length
    · rw [if_pos hlimit] at hpart
      refine .inr (.inl ⟨?_, hpart⟩)
      have hlength := hprefix.length_le
      simp only [Piece.bytes, hblanks, List.length_append] at hlimit ⊢
      omega
    · rw [if_neg hlimit] at hpart
      exact .inl ⟨dropped, blanks ++ q, hpart, hdropped, h, fun hnil => absurd hnil hopen⟩
  · -- the whole document has come
    exact .inr (.inr ⟨buffer', decode_document hblank p.document limit buffer', hmore⟩)

/-- Where no document is beyond the limit, nothing comes out but the first document, once it is
whole. -/
theorem decode_stream_short {limit : Nat} {pieces : List Piece} {dropped buffer future : List UInt8}
    (hdropped : Blank dropped) (h : dropped ++ (buffer ++ future) = stream pieces)
    (hshort : ∀ p ∈ pieces.head?, p.bytes.length ≤ limit) :
    (∃ dropped' rest, decode limit buffer = (none, rest) ∧ Blank dropped' ∧
      dropped' ++ (rest ++ future) = stream pieces) ∨
    ∃ p left rest, pieces = p :: left ∧ decode limit buffer = (some p.frame, rest) ∧
      rest ++ future = stream left := by
  cases pieces with
  | nil =>
    have hempty : buffer = [] :=
      (List.append_eq_nil_iff.mp (List.append_eq_nil_iff.mp h).2).1
    rw [hempty]
    rw [hempty] at h
    exact .inl ⟨dropped, [], decode_blank blank_nil limit, hdropped, h⟩
  | cons p left =>
    rw [← List.append_nil (stream (p :: left))] at h
    rcases decode_stream limit hdropped h with
      ⟨dropped', rest, hnone, hdropped', hrest, -⟩ | ⟨hlong, -⟩ | ⟨rest, hsome, hrest⟩
    · rw [List.append_nil] at hrest
      exact .inl ⟨dropped', rest, hnone, hdropped', hrest⟩
    · exact absurd (hshort p rfl) (Nat.not_le_of_lt hlong)
    · rw [List.append_nil] at hrest
      exact .inr ⟨p, left, rest, rfl, hsome, hrest⟩

/-- What draining makes of a buffer that holds the front of a stream, behind blanks dropped before:
the frames of the documents it holds whole. Then it keeps the front of the stream of the others, or
gives up a part of the next one that is beyond the limit, or comes to what is behind the last. -/
theorem drain_stream (limit : Nat) {pieces : List Piece} {tail dropped buffer future : List UInt8}
    (hdropped : Blank dropped) (h : dropped ++ (buffer ++ future) = stream pieces ++ tail) :
    ∃ done left found rest, pieces = done ++ left ∧
      drain limit buffer = (done.map Piece.frame ++ found, rest) ∧
      ((∃ dropped', found = [] ∧ Blank dropped' ∧
          dropped' ++ (rest ++ future) = stream left ++ tail ∧ (future = [] → rest = [])) ∨
        (∃ p more, left = p :: more ∧ limit < p.bytes.length ∧ found = [tooLong limit]) ∨
        (left = [] ∧ ¬Blank tail)) := by
  induction pieces generalizing dropped buffer with
  | nil =>
    by_cases htail : Blank tail
    · have hall : Blank (dropped ++ (buffer ++ future)) := by
        rw [h]
        exact htail
      have hbuffer := blank_of_append_left (blank_of_append_right hall)
      exact ⟨[], [], [], [], rfl, drain_of_none (decode_blank hbuffer limit),
        .inl ⟨dropped ++ buffer, rfl, blank_append hdropped hbuffer, by simpa using h,
          fun _ => rfl⟩⟩
    · exact ⟨[], [], _, _, rfl, rfl, .inr (.inr ⟨rfl, htail⟩)⟩
  | cons p pieces ih =>
    rcases decode_stream limit hdropped h with
      ⟨dropped', rest, hnone, hdropped', hrest, hend⟩ | ⟨hlong, hgiven⟩ | ⟨buffer', hsome, hmore⟩
    · exact ⟨[], p :: pieces, [], rest, rfl, drain_of_none hnone,
        .inl ⟨dropped', rfl, hdropped', hrest, hend⟩⟩
    · refine ⟨[], p :: pieces, [tooLong limit], [], rfl, ?_,
        .inr (.inl ⟨p, pieces, rfl, hlong, rfl⟩)⟩
      rw [drain_of_some hgiven, drain_nil]
      rfl
    · obtain ⟨done, left, found, rest, rfl, hdrain, hrest⟩ := ih blank_nil hmore
      refine ⟨p :: done, left, found, rest, rfl, ?_, hrest⟩
      rw [drain_of_some hsome, hdrain]
      rfl

/-! ### A stream cut into chunks -/

theorem feed_stream_from (limit : Nat) {pieces : List Piece} {tail dropped buffer : List UInt8}
    {chunks : List (List UInt8)} (hdropped : Blank dropped)
    (h : dropped ++ (buffer ++ chunks.flatten) = stream pieces ++ tail)
    (hend : chunks.flatten = [] → buffer = []) :
    ∃ done left found, pieces = done ++ left ∧
      (feed limit buffer chunks).1 = done.map Piece.frame ++ found ∧
      ((left = [] ∧ (Blank tail → found = [] ∧ (feed limit buffer chunks).2 = [])) ∨
        ∃ p more, left = p :: more ∧ limit < p.bytes.length ∧ found.head? = some (tooLong limit)) := by
  -- what is kept between two chunks is the front of the stream of the documents still to come
  induction chunks generalizing dropped buffer pieces with
  | nil =>
    obtain rfl := hend rfl
    cases pieces with
    | nil => exact ⟨[], [], [], rfl, rfl, .inl ⟨rfl, fun _ => ⟨rfl, rfl⟩⟩⟩
    | cons p pieces =>
      -- all that is left are blanks, and a document is not among them
      rw [stream_cons, List.append_assoc, List.append_assoc] at h
      obtain ⟨blanks, -, hblanks⟩ := exists_blanks_of_dropped hdropped p.document.opens h
      have hempty : p.text = [] := by
        simp only [List.flatten_nil, List.append_nil] at hblanks
        simp [List.append_eq_nil_iff.mp (List.append_eq_nil_iff.mp hblanks.symm).2]
      exact absurd hempty p.document.ne_nil
  | cons chunk chunks ih =>
    rw [List.flatten_cons, ← List.append_assoc buffer] at h
    rw [feed_cons]
    obtain ⟨done, left, found, rest, rfl, hdrain, hcase⟩ :=
      drain_stream limit hdropped h
    rw [hdrain]
    rcases hcase with ⟨dropped', rfl, hdropped', hrest, hdone⟩ |
      ⟨p, more, rfl, hlong, rfl⟩ | ⟨rfl, htail⟩
    · obtain ⟨done', left', found', rfl, hfeed, hfed⟩ := ih hdropped' hrest hdone
      refine ⟨done ++ done', left', found', by rw [List.append_assoc], ?_, hfed⟩
      simp only [hfeed, List.map_append, List.append_nil, List.append_assoc]
    · exact ⟨done, p :: more, _, rfl, List.append_assoc _ _ _, .inr ⟨p, more, rfl, hlong, rfl⟩⟩
    · exact ⟨done, [], _, rfl, List.append_assoc _ _ _, .inl ⟨rfl, fun h => absurd h htail⟩⟩

/-- **No message is made up.** However a stream of object documents, with blanks before and between
them, is cut into chunks, a decoder that is drained behind each chunk yields the frames of those
documents, one for each and in their order, up to the first document that is beyond the limit
together with its blanks; what it yields for that one is that it is too long. Behind the last
document nothing is yielded or kept if only blanks follow. -/
theorem feed_documents (limit : Nat) (pieces : List Piece) {tail : List UInt8}
    {chunks : List (List UInt8)} (hchunks : chunks.flatten = stream pieces ++ tail) :
    ∃ done left found, pieces = done ++ left ∧
      (feed limit [] chunks).1 = done.map Piece.frame ++ found ∧
      ((left = [] ∧ (Blank tail → found = [] ∧ (feed limit [] chunks).2 = [])) ∨
        ∃ p more, left = p :: more ∧ limit < p.bytes.length ∧ found.head? = some (tooLong limit)) :=
  feed_stream_from limit blank_nil hchunks fun _ => rfl

/-- A message with an object in its data that could be a message of its own. -/
def nested : Envelope := ⟨"a", .array [.object [("event", .string "b")]]⟩

/-- Cut inside that object, it comes out whole. -/
theorem feed_documents_nested :
    (feed 64 [] [nested.toBytes.take 23, nested.toBytes.drop 23]).1 = [.envelope nested] := by
  have htravels : nested.data.Travels :=
    ⟨⟨⟨⟨trivial, trivial⟩, List.pairwise_singleton _ _⟩, trivial⟩, rfl, by decide⟩
  have hshort : nested.toBytes.length ≤ 64 := by decide
  let piece : Piece :=
    ⟨[], nested.toBytes, nested.document, blank_nil, nested.document_toBytes htravels⟩
  have hchunks : [nested.toBytes.take 23, nested.toBytes.drop 23].flatten =
      stream [piece] ++ [] := by
    simp [piece, stream, Piece.bytes]
  obtain ⟨done, left, found, hpieces, hframes, hcase⟩ := feed_documents 64 [piece] hchunks
  rcases hcase with ⟨rfl, hclean⟩ | ⟨p, more, rfl, hlong, -⟩
  · rw [hframes, (hclean blank_nil).1, ← List.append_nil done, ← hpieces]
    rfl
  · cases done with
    | nil =>
      cases hpieces
      exact absurd hshort (Nat.not_le_of_lt hlong)
    | cons q done => simp at hpieces

/-- The messages among some frames. -/
def messages (frames : List Frame) : List Envelope :=
  frames.filterMap fun
    | .envelope e => some e
    | .malformed _ => none

/-- A message with a number that is too large and an object behind it. -/
def outOfRange : List UInt8 :=
  Utf8.encode "\x7b\"event\":\"a\",\"data\":[1e9999999999,\x7b\"event\":\"b\"\x7d]\x7d"

/-- What is left of either message from the object in its data on. -/
def fromObject : List UInt8 := Utf8.encode "\x7b\"event\":\"b\"\x7d]\x7d"

/-- What is left behind that object. -/
def behindObject : List UInt8 := Utf8.encode "]\x7d"

theorem drain_fromObject (limit : Nat) :
    drain limit fromObject =
      ([.envelope ⟨"b", .null⟩, brokenFrame behindObject .expectedValue 1], []) := by
  have hobject : Reading.front fromObject =
      .complete (.object [("event", .string "b")]) behindObject := rfl
  have hbroken : Reading.front behindObject = .broken .expectedValue 1 := rfl
  have hbehind : decode limit behindObject =
      (some (brokenFrame behindObject .expectedValue 1), []) := by
    rw [decode_of_broken hbroken, resynchronize_of_not_broken (by decide)]
    rfl
  rw [drain_of_some (decode_of_complete hobject limit), drain_of_some hbehind, drain_nil]
  rfl

/-- Where a message is refused for its number, or given up in the middle for its length, the object
in its data comes out as a message. -/
theorem object_in_data_delivered :
    ¬((messages (feed 64 [] [outOfRange]).1).map (·.event)).Sublist ["a"] ∧
    ¬((messages (feed 20 [] [nested.toBytes.take 21, nested.toBytes.drop 21]).1).map
      (·.event)).Sublist ["a"] := by
  have hbroken : Reading.front outOfRange = .broken .numberOutOfRange 33 := rfl
  have hrefused : decode 64 outOfRange =
      (some (brokenFrame outOfRange .numberOutOfRange 33), fromObject) := by
    rw [decode_of_broken hbroken, resynchronize_of_not_broken (by decide)]
    rfl
  have hgiven : decode 20 (nested.toBytes.take 21) = (some (tooLong 20), []) := rfl
  have hrest : nested.toBytes.drop 21 = fromObject := by decide
  constructor
  · rw [feed_cons, List.nil_append, drain_of_some hrefused, drain_fromObject]
    decide
  · rw [feed_cons, List.nil_append, drain_of_some hgiven, drain_nil, feed_cons, List.nil_append,
      hrest, drain_fromObject]
    decide

end EnvelopeClient.Frame
