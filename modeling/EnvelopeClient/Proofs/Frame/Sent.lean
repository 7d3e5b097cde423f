import EnvelopeClient.Proofs.Frame.Grammar
import EnvelopeClient.Proofs.Frame.Stream
import EnvelopeClient.Proofs.Json.Depth

/-!
# What is sent and what of it is decoded

Writing an envelope has no limit, reading one has: the data of a message may nest less than
`depthLimit` containers, since the message is one more. `drain_toBytes` says that this is the only
thing the two sides do not agree about. The text of an envelope that is not too deep is decoded to
that envelope and leaves nothing behind; the text of one that is too deep is reported as broken, and
no stream at all makes the decoder yield that envelope (`depth_lt_of_mem_feed`).

What comes behind the report is another matter: decoding starts again inside the text, and an object
in the data may be taken for a message (`message_inside_delivered`).
-/

namespace EnvelopeClient

open Json Utf8

namespace Envelope

variable {e : Envelope} {v : Value}

/-- The data of a message is not as deep as its document. -/
theorem Denoted.depth_lt (h : Denoted v e) : e.data.depth < v.depth := by
  cases h with
  | @object members event hevent =>
    cases hdata : members.get? "data" with
    | none => exact Nat.succ_pos _
    | some data => exact Members.depth_of_get? hdata
  | tag event => exact Nat.succ_pos _
  | pair event data =>
    simp only [Value.depth, Value.itemsDepth]
    omega

/-- The text of an envelope whose data is too deep overflows. -/
theorem overflows_toBytes (hcanonical : e.data.Canonical) (hfloat : e.data.isFloatFree = true)
    (hdeep : depthLimit ≤ e.data.depth) : State.Overflows .initial e.toBytes := by
  have hmembers : Value.CanonicalMembers e.members := ⟨trivial, hcanonical, trivial⟩
  have hfree : Value.membersFloatFree e.members = true := by
    simp [members, Value.membersFloatFree, Value.isFloatFree, hfloat]
  have hdepth : depthLimit < 0 + 1 + Value.membersDepth e.members := by
    simp only [members, Value.membersDepth, Value.depth, Nat.max_zero, Nat.zero_max]
    omega
  have htext := State.overflows_members e.members (by simp [members]) hmembers hfree
    (s := ⟨[], .firstKey⟩) [] [] (by decide) hdepth rfl
  rw [e.toBytes_eq]
  exact .cons rfl (htext.append _)

end Envelope

namespace Frame

variable {limit : Nat} {e : Envelope}

/-! ### What is decoded -/

/-- A message is the one of the document at the front. -/
theorem exists_document_of_decode {buffer rest : List UInt8}
    (h : decode limit buffer = (some (.envelope e), rest)) :
    ∃ v, Reading.front buffer = .complete v rest ∧ Envelope.Denoted v e := by
  rw [decode] at h
  split at h
  · cases h
  · next v rest' hfront =>
    simp only [Prod.mk.injEq, Option.some.injEq] at h
    obtain ⟨hframe, rfl⟩ := h
    refine ⟨v, hfront, (Envelope.ofValue_denoted v).1 e |>.mp ?_⟩
    rw [ofDocument] at hframe
    split at hframe
    · next found hfound =>
      cases hframe
      exact hfound
    · cases hframe
  · split at h <;> cases h
  · cases h

/-- No message that is found in a buffer is too deep. -/
theorem depth_lt_of_mem_drain {buffer : List UInt8} (h : .envelope e ∈ (drain limit buffer).1) :
    e.data.depth < depthLimit := by
  -- the buffer behind a frame is shorter
  induction hlength : buffer.length using Nat.strongRecOn generalizing buffer with
  | _ n ih =>
    rcases hdecode : decode limit buffer with ⟨_ | frame, rest⟩
    · rw [drain_of_none hdecode] at h
      cases h
    · rw [drain_of_some hdecode] at h
      rcases List.mem_cons.mp h with rfl | h
      · obtain ⟨v, hfront, hdenoted⟩ := exists_document_of_decode hdecode
        exact Nat.lt_of_lt_of_le hdenoted.depth_lt (depth_le_of_front hfront)
      · exact ih rest.length (hlength ▸ decode_length_lt hdecode) h rfl

/-- No message of a stream is too deep, however the stream is cut. -/
theorem depth_lt_of_mem_feed {buffer : List UInt8} {chunks : List (List UInt8)}
    (h : .envelope e ∈ (feed limit buffer chunks).1) : e.data.depth < depthLimit := by
  induction chunks generalizing buffer with
  | nil => cases h
  | cons chunk chunks ih =>
    rw [feed_cons] at h
    rcases List.mem_append.mp h with h | h
    · exact depth_lt_of_mem_drain h
    · exact ih h

/-! ### What is sent -/

/-- A message that is too deep is reported first of all. -/
theorem drain_of_overflows (h : State.Overflows .initial e.toBytes) (limit : Nat) :
    ∃ place more, (drain limit e.toBytes).1 = brokenFrame e.toBytes .recursionLimit place :: more := by
  obtain ⟨place, hplace⟩ := h 0 []
  rw [List.append_nil] at hplace
  have hdecode := decode_of_broken (front_of_broken hplace) limit
  exact ⟨place, (drain limit (resynchronize (skipBroken e.toBytes))).1, by
    rw [drain_of_some hdecode]⟩

/-- **What is sent is decoded, unless it nests too deep.** For every tag and all data without
binary64 numbers, however large, the bytes of the envelope are decoded to exactly that envelope, with
nothing left in the buffer, if and only if the data nests less than `depthLimit` containers. The
bytes of one that nests deeper are reported as broken by the limit, and no stream at all, however it
is cut, makes the decoder yield it. -/
theorem drain_toBytes (limit : Nat) (e : Envelope) (hcanonical : e.data.Canonical)
    (hfloat : e.data.isFloatFree = true) :
    (drain limit e.toBytes = ([.envelope e], []) ↔ e.data.depth < depthLimit) ∧
    (depthLimit ≤ e.data.depth →
      (∃ place more,
        (drain limit e.toBytes).1 = brokenFrame e.toBytes .recursionLimit place :: more) ∧
      ∀ chunks, .envelope e ∉ (feed limit [] chunks).1) := by
  refine ⟨⟨?_, ?_⟩, ?_⟩
  · intro hdrain
    have hmem : .envelope e ∈ (drain limit e.toBytes).1 := by
      rw [hdrain]
      exact List.mem_singleton_self _
    exact depth_lt_of_mem_drain hmem
  · intro hshallow
    have hdecode := decode_message blank_nil ⟨hcanonical, hfloat, hshallow⟩ limit []
    rw [List.nil_append, List.append_nil] at hdecode
    rw [drain_of_some hdecode, drain_nil]
  · intro hdeep
    refine ⟨drain_of_overflows (Envelope.overflows_toBytes hcanonical hfloat hdeep) limit, ?_⟩
    intro chunks hmem
    exact Nat.not_lt_of_le hdeep (depth_lt_of_mem_feed hmem)

/-- Arrays around a value. -/
def nest : Nat → Value → Value
  | 0, v => v
  | n + 1, v => .array [nest n v]

theorem canonical_nest {v : Value} (h : v.Canonical) (n : Nat) : (nest n v).Canonical := by
  induction n with
  | zero => exact h
  | succ n ih => exact ⟨ih, trivial⟩

theorem isFloatFree_nest (n : Nat) (v : Value) : (nest n v).isFloatFree = v.isFloatFree := by
  induction n with
  | zero => rfl
  | succ n ih => simp [nest, Value.isFloatFree, Value.areFloatFree, ih]

theorem depth_nest (n : Nat) (v : Value) : (nest n v).depth = n + v.depth := by
  induction n with
  | zero => exact (Nat.zero_add _).symm
  | succ n ih =>
    rw [nest, Value.depth, Value.itemsDepth, Value.itemsDepth, Nat.max_zero, ih]
    omega

/-- The deepest data that is decoded, and one array more. -/
theorem drain_toBytes_nest :
    (nest 126 .null).Canonical ∧ (nest 126 .null).isFloatFree = true ∧
    drain 64 (Envelope.toBytes ⟨"a", nest 126 .null⟩) = ([.envelope ⟨"a", nest 126 .null⟩], []) ∧
    (nest 127 .null).Canonical ∧ (nest 127 .null).isFloatFree = true ∧
    ∀ chunks, .envelope ⟨"a", nest 127 .null⟩ ∉ (feed 64 [] chunks).1 := by
  have hcanonical (n : Nat) : (nest n .null).Canonical := canonical_nest (v := .null) trivial n
  have hfloat (n : Nat) : (nest n .null).isFloatFree = true := isFloatFree_nest n .null
  have hdepth (n : Nat) : (nest n .null).depth = n := depth_nest n .null
  obtain ⟨hfits, -⟩ := drain_toBytes 64 ⟨"a", nest 126 .null⟩ (hcanonical 126) (hfloat 126)
  obtain ⟨-, hdeep⟩ := drain_toBytes 64 ⟨"a", nest 127 .null⟩ (hcanonical 127) (hfloat 127)
  refine ⟨hcanonical 126, hfloat 126, hfits.mpr ?_, hcanonical 127, hfloat 127, (hdeep ?_).2⟩
  · show (nest 126 .null).depth < depthLimit
    rw [hdepth]
    decide
  · show depthLimit ≤ (nest 127 .null).depth
    rw [hdepth]
    decide

/-- An object that could be a message. -/
def inner : Value := .object [("data", .int 1), ("event", .string "b")]

/-- A message with that object so far inside that the message is too deep. -/
def deep : Envelope := ⟨"a", nest 126 inner⟩

/-- What closes the arrays around the object, and the message. -/
def closing : List UInt8 := List.replicate 126 0x5d ++ [0x7d]

theorem canonical_inner : inner.Canonical := by
  refine ⟨⟨?_, trivial, trivial⟩, ?_⟩
  · show fitsInteger 1 = true
    decide
  · decide

/-- All that is delivered of a message that is too deep is an object of its data. -/
theorem message_inside_delivered :
    deep.data.Canonical ∧ deep.data.isFloatFree = true ∧
      messages (drain defaultLimit deep.toBytes).1 = [⟨"b", .int 1⟩] ∧
      drain defaultLimit deep.toBytes ≠ ([.envelope deep], []) := by
  have hcanonical : deep.data.Canonical := canonical_nest canonical_inner 126
  have hfloat : deep.data.isFloatFree = true := isFloatFree_nest 126 inner
  have hdeep : depthLimit ≤ deep.data.depth := by
    show depthLimit ≤ (nest 126 inner).depth
    rw [depth_nest]
    decide
  obtain ⟨place, hplace⟩ := Envelope.overflows_toBytes hcanonical hfloat hdeep 0 []
  rw [List.append_nil] at hplace
  -- decoding starts again at the object, which is a document
  have hskipped : skipBroken deep.toBytes =
      Utf8.encode "\x7b\"data\":1,\"event\":\"b\"\x7d" ++ closing := by decide +kernel
  have hobject : Reading.front (Utf8.encode "\x7b\"data\":1,\"event\":\"b\"\x7d" ++ closing) =
      .complete inner closing := rfl
  have hbroken : Reading.front closing = .broken .expectedValue 1 := rfl
  have hbehind : decode defaultLimit closing = (some (brokenFrame closing .expectedValue 1), []) := by
    rw [decode_of_broken hbroken, resynchronize_of_not_broken (by decide)]
    rfl
  have hfirst := decode_of_broken (front_of_broken hplace) defaultLimit
  rw [hskipped, resynchronize_of_not_broken (brokenAtFront_of_complete hobject)] at hfirst
  have hmessages : messages (drain defaultLimit deep.toBytes).1 = [⟨"b", .int 1⟩] := by
    rw [drain_of_some hfirst, drain_of_some (decode_of_complete hobject defaultLimit),
      drain_of_some hbehind, drain_nil]
    rfl
  refine ⟨hcanonical, hfloat, hmessages, ?_⟩
  intro heq
  rw [heq] at hmessages
  have hevent : ["a"] = ["b"] := congrArg (List.map Envelope.event) hmessages
  exact absurd hevent (by decide)

end Frame

end EnvelopeClient
