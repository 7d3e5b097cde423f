import EnvelopeClient.Proofs.Reception.System

/-!
# How a reader stands to the codec

`Follows` relates the state of a reader to its trace: what it has taken, together with what it can
still take off the bytes it holds, is what the codec finds in the chunks it has read. Every step keeps
that (`Follows.step`).
-/

namespace EnvelopeClient

namespace Trace

variable {t u : Trace}

theorem OfUsers.unread (h : OfUsers u) (r : Reading) : Entry.read r ∉ u := by
  intro hr
  obtain ⟨a, ha, -⟩ := h _ hr
  cases ha

theorem OfUsers.stays (h : OfUsers u) : Entry.vanished ∉ u := by
  intro hvanished
  obtain ⟨a, ha, -⟩ := h _ hvanished
  cases ha

/-- What is not done by the reader does not concern the codec. -/
theorem filterMap_of_unread {α : Type} {f : Entry → Option α} (h : ∀ r, Entry.read r ∉ u)
    (hact : ∀ a, f (.act a) = none) (hvanished : f .vanished = none) : u.filterMap f = [] := by
  refine List.filterMap_eq_nil_iff.mpr ?_
  intro entry hentry
  cases entry with
  | read r => exact absurd hentry (h r)
  | act a => exact hact a
  | vanished => exact hvanished

theorem atEnd_of_unread (h : ∀ r, Entry.read r ∉ u) : atEnd u = false := by
  refine List.any_eq_false.mpr ?_
  intro entry hentry
  cases entry with
  | read r => exact absurd hentry (h r)
  | act a => simp [Entry.isEnd]
  | vanished => simp [Entry.isEnd]

theorem chunks_append (t u : Trace) : chunks (t ++ u) = chunks t ++ chunks u :=
  List.filterMap_append

theorem frames_append (t u : Trace) : frames (t ++ u) = frames t ++ frames u :=
  List.filterMap_append

theorem acts_append (t u : Trace) : acts (t ++ u) = acts t ++ acts u := List.filterMap_append

theorem announced_append (t u : Trace) : announced (t ++ u) = announced t ++ announced u :=
  List.filterMap_append

theorem failures_append (t u : Trace) : failures (t ++ u) = failures t ++ failures u :=
  List.filterMap_append

theorem delivered_append (t u : Trace) : delivered (t ++ u) = delivered t ++ delivered u := by
  rw [delivered, acts_append, List.filterMap_append, delivered, delivered]

/-- Users deliver nothing. -/
theorem OfUsers.delivered (h : OfUsers u) : delivered u = [] := by
  refine List.filterMap_eq_nil_iff.mpr ?_
  intro a ha
  obtain ⟨entry, hentry, hact⟩ := List.mem_filterMap.mp ha
  obtain ⟨b, rfl, hb⟩ := h entry hentry
  cases hact
  exact hb

/-- What a step of the reader delivers and announces is that of its frame. -/
theorem delivered_read (r : Reading) :
    delivered [.read r] = (frames [.read r]).filterMap Frame.envelope? := by
  cases r with
  | frame f => cases f <;> rfl
  | stop | bytes _ | ended | failed _ | rest | finish => rfl

theorem announced_read (r : Reading) :
    announced [.read r] =
      (frames [.read r]).filterMap Frame.notice? ++ failures [.read r] := by
  cases r with
  | frame f => cases f <;> rfl
  | stop | bytes _ | ended | failed _ | rest | finish => rfl

theorem atEnd_append (t u : Trace) : atEnd (t ++ u) = (atEnd t || atEnd u) := List.any_append

/-- If nothing more is read, nothing more is found. -/
theorem fed_append (t : Trace) (hchunks : chunks u = []) : fed (t ++ u) = fed t := by
  rw [fed, chunks_append, hchunks, List.append_nil, fed]

theorem codec_append (t : Trace) (hchunks : chunks u = []) (hend : atEnd u = false) :
    codec (t ++ u) = codec t := by
  rw [codec, codec, fed_append t hchunks, atEnd_append, hend, Bool.or_false]

theorem fed_concat (t : Trace) (chunk : List UInt8) :
    fed (t ++ [.read (.bytes chunk)]) =
      (t.fed.1 ++ (Frame.drain Frame.defaultLimit (t.fed.2 ++ chunk)).1,
        (Frame.drain Frame.defaultLimit (t.fed.2 ++ chunk)).2) := by
  rw [fed, chunks_append]
  exact Frame.feed_concat _ _ _ _

end Trace

/-- How a reader stands to what it has read: it has taken all frames there are, or has still to take
those of the bytes it holds. -/
inductive Follows (t : Trace) : Reader → Prop where
  | waits {intake : Intake} (hframes : t.frames = t.fed.1) (hbytes : intake.bytes = t.fed.2)
      (hend : t.atEnd = false) : Follows t (.running intake false false)
  | decodes {intake : Intake}
      (hframes : t.fed.1 = t.frames ++ (Frame.drain Frame.defaultLimit intake.bytes).1)
      (hrest : t.fed.2 = (Frame.drain Frame.defaultLimit intake.bytes).2)
      (hend : t.atEnd = false) : Follows t (.running intake true false)
  | ends {intake : Intake}
      (hframes : t.codec = t.frames ++ (Frame.drainAtEnd Frame.defaultLimit intake.bytes).1)
      (hend : t.atEnd = true) : Follows t (.running intake true true)
  | ended (hfront : t.frames <+: t.codec)
      (hall : .read .stop ∈ t ∨ .vanished ∈ t ∨ t.frames = t.codec) : Follows t .ended

namespace Follows

variable {t u : Trace} {reader : Reader} {intake : Intake}

theorem codec_of_not_end (hend : t.atEnd = false) : t.codec = t.fed.1 := by
  rw [Trace.codec, hend]
  exact List.append_nil _

/-- Nothing is taken that the codec does not find. -/
theorem front (h : Follows t reader) : t.frames <+: t.codec := by
  cases h with
  | waits hframes hbytes hend =>
    have hsame : t.frames = t.codec := hframes.trans (codec_of_not_end hend).symm
    exact hsame ▸ List.prefix_refl _
  | decodes hframes hrest hend =>
    rw [codec_of_not_end hend, hframes]
    exact List.prefix_append _ _
  | ends hframes hend =>
    rw [hframes]
    exact List.prefix_append _ _
  | ended hfront hall => exact hfront

/-- A reader that waits for bytes has taken everything. -/
theorem all_of_waits {atEnd : Bool} (h : Follows t (.running intake false atEnd)) :
    t.frames = t.codec := by
  cases h with
  | waits hframes hbytes hend => rw [codec_of_not_end hend, hframes]

/-- What others do is nothing to the reader. -/
theorem append (h : Follows t reader) (hchunks : Trace.chunks u = []) (hframes : Trace.frames u = [])
    (hend : Trace.atEnd u = false) : Follows (t ++ u) reader := by
  have hfed := Trace.fed_append t hchunks
  have hcodec := Trace.codec_append t hchunks hend
  have hsame : Trace.frames (t ++ u) = t.frames := by
    rw [Trace.frames_append, hframes, List.append_nil]
  have hend' : Trace.atEnd (t ++ u) = t.atEnd := by
    rw [Trace.atEnd_append, hend, Bool.or_false]
  cases h with
  | waits hframes hbytes hend =>
    exact .waits (by rw [hsame, hfed, hframes]) (by rw [hfed, hbytes]) (hend'.trans hend)
  | decodes hframes hrest hend =>
    exact .decodes (by rw [hsame, hfed, hframes]) (by rw [hfed, hrest]) (hend'.trans hend)
  | ends hframes hend => exact .ends (by rw [hsame, hcodec, hframes]) (hend'.trans hend)
  | ended hfront hall =>
    refine .ended (by rwa [hsame, hcodec]) ?_
    rw [hsame, hcodec]
    rcases hall with hstop | hvanished | hall
    · exact .inl (List.mem_append_left _ hstop)
    · exact .inr (.inl (List.mem_append_left _ hvanished))
    · exact .inr (.inr hall)

/-! ### Its steps -/

variable {c c' : Connection} {r : Reading}

theorem reader_dispatch (c : Connection) (f : Frame) : (c.dispatch f).reader = c.reader := by
  obtain ⟨exchange, notices, hsame, -⟩ := c.exists_dispatch f
  rw [hsame]

/-- A frame that is taken is the next one the codec finds. -/
theorem frame {rest : Intake} {f : Frame} (h : Follows t (.running intake true false))
    (hdecode : intake.decode Frame.defaultLimit = (some f, rest)) :
    Follows (t ++ [.read (.frame f)]) (.running rest true false) := by
  have hfed : Trace.fed (t ++ [.read (.frame f)]) = t.fed := Trace.fed_append t rfl
  cases h with
  | decodes hframes hrest hend =>
    rw [Frame.drain_of_some (Intake.bytes_of_decode hdecode)] at hframes hrest
    refine .decodes ?_ ?_ ?_
    · rw [hfed, hframes, Trace.frames_append, List.append_assoc]
      rfl
    · rw [hfed, hrest]
    · rw [Trace.atEnd_append, hend]
      rfl

theorem lastFrame {rest : Intake} {f : Frame} (h : Follows t (.running intake true true))
    (hdecode : intake.decodeAtEnd Frame.defaultLimit = (some f, rest)) :
    Follows (t ++ [.read (.frame f)]) (.running rest true true) := by
  have hcodec : Trace.codec (t ++ [.read (.frame f)]) = t.codec := Trace.codec_append t rfl rfl
  cases h with
  | ends hframes hend =>
    rw [Frame.drainAtEnd_of_some (Intake.bytes_of_decodeAtEnd hdecode)] at hframes
    refine .ends ?_ ?_
    · rw [hcodec, hframes, Trace.frames_append, List.append_assoc]
      rfl
    · rw [Trace.atEnd_append, hend]
      rfl

/-- When nothing is left at the end, everything has been taken. -/
theorem all_of_finish {rest : Intake} (h : Follows t (.running intake true true))
    (hdecode : intake.decodeAtEnd Frame.defaultLimit = (none, rest)) : t.frames = t.codec := by
  cases h with
  | ends hframes hend =>
    rw [hframes, Frame.drainAtEnd_of_none (Intake.bytes_of_decodeAtEnd hdecode), List.append_nil]

/-- A reader that ends itself has taken everything, unless it was told to stop. -/
theorem all_of_last (h : Follows t c.reader) (hreads : c.Reads r c')
    (hlast : r = .finish ∨ ∃ fault, r = .failed fault) : t.frames = t.codec := by
  cases hreads with
  | failed hreader hcancelled hread =>
    rw [hreader] at h
    exact h.all_of_waits
  | finish hreader hcancelled hdecode =>
    rw [hreader] at h
    exact h.all_of_finish hdecode
  | stop _ _ | bytes _ _ _ | ended _ _ _ | frame _ _ _ | rest _ _ _ | lastFrame _ _ _ =>
    rcases hlast with heq | ⟨fault, heq⟩ <;> cases heq

theorem step (h : Follows t c.reader) (hreads : c.Reads r c') :
    Follows (t ++ [.read r]) c'.reader := by
  cases hreads with
  | stop hreader hcancelled =>
    have hfront := (h.append (u := [.read .stop]) rfl rfl rfl).front
    exact .ended hfront (.inl (by simp))
  | @bytes intake atEnd chunk inbound hreader hcancelled hread =>
    rw [hreader] at h
    cases h with
    | waits hframes hbytes hend =>
      have hintake : (intake.makeRoom.append chunk).bytes = t.fed.2 ++ chunk := by
        rw [Intake.append, Intake.bytes_makeRoom, hbytes]
      refine .decodes ?_ ?_ ?_
      · rw [Trace.fed_concat, hintake, Trace.frames_append, hframes]
        simp [Trace.frames, Entry.frame?]
      · rw [Trace.fed_concat, hintake]
      · rw [Trace.atEnd_append, hend]
        rfl
  | @ended intake atEnd inbound hreader hcancelled hread =>
    rw [hreader] at h
    cases h with
    | waits hframes hbytes hend =>
      have hfed : Trace.fed (t ++ [.read .ended]) = t.fed := Trace.fed_append t rfl
      have hend' : Trace.atEnd (t ++ [.read .ended]) = true := by
        rw [Trace.atEnd_append, hend]
        rfl
      refine .ends ?_ hend'
      rw [Trace.codec, hfed, hend', Intake.bytes_makeRoom, hbytes, Trace.frames_append, hframes]
      simp [Trace.frames, Entry.frame?]
  | @failed intake atEnd fault inbound hreader hcancelled hread =>
    rw [hreader] at h
    have hnext := h.append (u := [.read (.failed fault)]) rfl rfl rfl
    exact .ended hnext.front (.inr (.inr hnext.all_of_waits))
  | @frame intake rest f hreader hcancelled hdecode =>
    rw [hreader] at h
    rw [reader_dispatch]
    exact h.frame hdecode
  | @rest intake rest hreader hcancelled hdecode =>
    rw [hreader] at h
    have hnext := h.append (u := [.read .rest]) rfl rfl rfl
    cases hnext with
    | decodes hframes hrest hend =>
      rw [Frame.drain_of_none (Intake.bytes_of_decode hdecode)] at hframes hrest
      exact .waits (by rw [hframes, List.append_nil]) hrest.symm hend
  | @lastFrame intake rest f hreader hcancelled hdecode =>
    rw [hreader] at h
    rw [reader_dispatch]
    exact h.lastFrame hdecode
  | @finish intake rest hreader hcancelled hdecode =>
    rw [hreader] at h
    have hnext := h.append (u := [.read .finish]) rfl rfl rfl
    exact .ended hnext.front (.inr (.inr (hnext.all_of_finish hdecode)))

end Follows

end EnvelopeClient
