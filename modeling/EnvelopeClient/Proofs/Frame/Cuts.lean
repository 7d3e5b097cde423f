import EnvelopeClient.Proofs.Frame.Documents
import EnvelopeClient.Proofs.Json.Front
import Mathlib.Data.List.Induction

/-!
# Where a stream is cut

A `Document` is whole wherever it is cut. Here a document only has to be accepted where nothing
follows it (`Portion`), so a number of it may be in range as a whole and too large where it is cut:
behind its first 309 digits, say, with the exponent still to come. That is the only way in which a
cut can do harm (`Portion.decode_part`), and it does harm wherever it happens: a stream comes out as
the frames of its documents if and only if no cut falls so (`feed_cut`). How the stream is cut makes
no difference otherwise, as long as the limit allows what is kept (`Within`).
-/

namespace EnvelopeClient.Frame

open Json

/-- Whether a text ends in a number that is too large so far. -/
def endsOutOfRange (text : List UInt8) : Bool :=
  match scan .initial 0 text with
  | .broken .numberOutOfRange _ => true
  | _ => false

/-- A document of a stream that is accepted where nothing follows it, with the blanks before it. -/
structure Portion where
  blanks : List UInt8
  text : List UInt8
  value : Value
  blank : Blank blanks
  opens : text.head? = some 0x7b
  alone : Reading.front text = .complete value []

namespace Portion

/-- The frame of a portion's document. -/
def frame (p : Portion) : Frame := ofDocument p.value

/-- Portions one after the other. -/
def stream : List Portion → List UInt8
  | [] => []
  | p :: portions => p.blanks ++ (p.text ++ stream portions)

theorem stream_append (portions more : List Portion) :
    stream (portions ++ more) = stream portions ++ stream more := by
  induction portions with
  | nil => rfl
  | cons p portions ih => simp only [List.cons_append, stream, ih, List.append_assoc]

/-! ### One document -/

variable {p : Portion} {blanks q : List UInt8}

theorem text_ne_nil (p : Portion) : p.text ≠ [] := by
  intro hnil
  have hopens := p.opens
  rw [hnil] at hopens
  cases hopens

/-- Behind its first brace a document is read up to its last byte, which closes it. -/
theorem exists_run (p : Portion) : ∃ body b t, p.text = 0x7b :: (body ++ [b]) ∧
    State.run? ⟨[], .firstKey⟩ body = some t ∧ t.step b = .done p.value true := by
  obtain ⟨rest, htext⟩ := List.head?_eq_some_iff.mp p.opens
  have hopened : State.initial.step 0x7b = .more ⟨[], .firstKey⟩ := rfl
  have hscan := scan_of_front p.alone
  rw [htext, scan, hopened] at hscan
  obtain ⟨body, b, t, rfl, hrun, hdone⟩ := run?_of_scan (State.inside_of_mode rfl rfl) hscan
  exact ⟨body, b, t, htext, hrun, hdone⟩

/-- A document behind blanks is decoded, whatever follows it. -/
theorem decode_whole (p : Portion) (hblank : Blank blanks) (limit : Nat) (rest : List UInt8) :
    decode limit (blanks ++ (p.text ++ rest)) = (some p.frame, rest) := by
  obtain ⟨body, b, t, htext, hrun, hdone⟩ := p.exists_run
  have hopened : State.initial.step 0x7b = .more ⟨[], .firstKey⟩ := rfl
  have hfirst : firstByte? (blanks ++ (p.text ++ rest)) = some 0x7b := by
    rw [firstByte?_blank_append hblank, htext]
    rfl
  have hscan : scan .initial 0 (blanks ++ (p.text ++ rest)) = .complete p.value rest := by
    rw [scan_blank_append hblank, htext, List.cons_append, scan, hopened, List.append_assoc]
    refine (scan_append hrun _ _).trans ?_
    rw [List.singleton_append, scan, hdone]
  exact decode_of_complete (front_of_brace hfirst hscan) limit

/-- A part of a document leads into a container. -/
theorem exists_inside (hq : q <+: p.text) (hne : q ≠ []) (hproper : q ≠ p.text) :
    ∃ s, State.initial.run? q = some s ∧ s.Inside := by
  obtain ⟨body, b, t, htext, hrun, -⟩ := p.exists_run
  have hopened : State.initial.step 0x7b = .more ⟨[], .firstKey⟩ := rfl
  rw [htext, ← List.cons_append] at hq hproper
  rcases List.prefix_concat_iff.mp hq with heq | hpart
  · exact absurd heq hproper
  · cases q with
    | nil => exact absurd rfl hne
    | cons c q =>
      obtain ⟨rfl, more, rfl⟩ := List.cons_prefix_cons.mp hpart
      rw [State.run?_append] at hrun
      obtain ⟨s, hs, -⟩ := Option.bind_eq_some_iff.mp hrun
      refine ⟨s, ?_, State.inside_run? (State.inside_of_mode rfl rfl) hs⟩
      rw [State.run?, hopened]
      exact hs

/-- A part of a document is kept, unless the number in which it ends is too large so far. Then it is
reported as broken. -/
theorem decode_part {limit : Nat} (hblank : Blank blanks) (hq : q <+: p.text) (hne : q ≠ [])
    (hproper : q ≠ p.text) (hlimit : (blanks ++ q).length ≤ limit) :
    (endsOutOfRange q = false ∧ decode limit (blanks ++ q) = (none, blanks ++ q)) ∨
      (endsOutOfRange q = true ∧ ∃ fault index rest,
        decode limit (blanks ++ q) = (some (brokenFrame (blanks ++ q) fault index), rest)) := by
  obtain ⟨s, hrun, hinside⟩ := exists_inside hq hne hproper
  have hscan : ∀ index, scan .initial index q = s.finish (index + q.length) := by
    intro index
    have h := scan_append hrun index []
    rwa [List.append_nil] at h
  have hbehind := scan_blank_append hblank 0 q
  rw [hscan] at hbehind
  rw [endsOutOfRange, hscan]
  rcases State.finish_of_inside hinside with ⟨what, hfinish⟩ | hfinish
  · rw [hfinish] at hbehind ⊢
    have hfront : Reading.front (blanks ++ q) = .incomplete what := by
      rw [Reading.front, hbehind]
    refine .inl ⟨rfl, ?_⟩
    rw [decode, hfront]
    exact if_neg (Nat.not_lt_of_le hlimit)
  · rw [hfinish] at hbehind ⊢
    exact .inr ⟨rfl, _, _, _, decode_of_broken (front_of_broken hbehind) limit⟩

/-! ### Cuts -/

/-- Where the bytes of a stream end inside a document, no number is too large there. -/
def CutInRange (portions : List Portion) (bytes : List UInt8) : Prop :=
  ∀ done p left q, portions = done ++ p :: left → bytes = stream done ++ (p.blanks ++ q) →
    q <+: p.text → endsOutOfRange q = false

theorem endsOutOfRange_text (p : Portion) : endsOutOfRange p.text = false := by
  rw [endsOutOfRange, scan_of_front p.alone]

/-- A cut behind blanks does no harm. -/
theorem cutInRange_of_blank {bytes : List UInt8} (h : Blank bytes) (portions : List Portion) :
    CutInRange portions bytes := by
  intro done p left q _ hbytes hq
  rw [hbytes] at h
  have hblank := blank_of_append_right (blank_of_append_right h)
  cases q with
  | nil => rfl
  | cons c q =>
    obtain ⟨more, hmore⟩ := hq
    have hopens := p.opens
    rw [← hmore] at hopens
    cases hopens
    cases hblank 0x7b List.mem_cons_self

/-- Only the document in which the bytes end matters. -/
theorem cutInRange_append (done left : List Portion) (bytes : List UInt8) :
    CutInRange (done ++ left) (stream done ++ bytes) ↔ CutInRange left bytes := by
  constructor
  · intro h before p behind q hleft hbytes hq
    refine h (done ++ before) p behind q ?_ ?_ hq
    · rw [hleft, List.append_assoc]
    · rw [hbytes, stream_append, List.append_assoc]
  · intro h before p behind q hportions hbytes hq
    rcases List.append_eq_append_iff.mp hportions with ⟨more, hbefore, hleft⟩ | ⟨more, hdone, hmore⟩
    · refine h more p behind q hleft ?_ hq
      rw [hbefore, stream_append, List.append_assoc] at hbytes
      exact List.append_cancel_left hbytes
    · cases more with
      | nil =>
        refine h [] p behind q hmore.symm ?_ hq
        rw [hdone, List.append_nil] at hbytes
        exact List.append_cancel_left hbytes
      | cons first more =>
        -- the document is whole
        obtain ⟨rfl, -⟩ := List.cons.inj hmore
        rw [hdone, stream_append, List.append_assoc] at hbytes
        have htext := List.append_cancel_left hbytes
        rw [stream, List.append_assoc] at htext
        obtain rfl := List.append_cancel_left htext
        have hlength := hq.length_le
        simp only [List.length_append] at hlength
        have hnil : stream more ++ bytes = [] := by
          rw [← List.length_eq_zero_iff, List.length_append]
          omega
        rw [List.append_assoc, hnil, List.append_nil]
        exact endsOutOfRange_text p

/-- A cut inside the first document. -/
theorem cutInRange_part {left : List Portion} (hq : q <+: p.text) (hproper : q ≠ p.text) :
    CutInRange (p :: left) (p.blanks ++ q) ↔ endsOutOfRange q = false := by
  constructor
  · intro h
    exact h [] p left q rfl rfl hq
  · intro h before first behind q' hportions hbytes hq'
    cases before with
    | nil =>
      obtain ⟨rfl, -⟩ := List.cons.inj hportions
      obtain rfl := List.append_cancel_left hbytes
      exact h
    | cons first' before =>
      obtain ⟨rfl, -⟩ := List.cons.inj hportions
      rw [stream, List.append_assoc, List.append_assoc] at hbytes
      have htext := List.append_cancel_left hbytes
      exact absurd (hq.eq_of_length_le (by rw [htext]; simp)) hproper

/-! ### A buffer of documents -/

/-- No document is reported as broken text. -/
theorem frame_ne_broken (p : Portion) (buffer : List UInt8) (fault : Fault) (index : Nat) :
    p.frame ≠ brokenFrame buffer fault index := by
  intro heq
  rw [frame, ofDocument, Envelope.ofValue, brokenFrame] at heq
  cases hread : Envelope.read p.value with
  | ok e =>
    rw [hread] at heq
    cases heq
  | error mismatch =>
    rw [hread] at heq
    have hreason := congrArg (·.toList.head?) (Frame.malformed.inj heq)
    simp [Failure.message, Failure.label, toString] at hreason

/-- What draining makes of a buffer that holds the front of a stream, behind blanks dropped before:
the frames of the documents it holds whole. Then it keeps the front of the stream of the others,
where the cut is in range, or it reports the next one as broken. -/
theorem drain_portions {limit : Nat} {portions : List Portion}
    {trailing dropped buffer future : List UInt8} (hdropped : Blank dropped)
    (htrailing : Blank trailing) (hlimit : buffer.length ≤ limit)
    (h : dropped ++ (buffer ++ future) = stream portions ++ trailing) :
    ∃ done left found rest, portions = done ++ left ∧
      drain limit buffer = (done.map frame ++ found, rest) ∧
      ((∃ dropped', found = [] ∧ Blank dropped' ∧ CutInRange left (dropped' ++ rest) ∧
          dropped ++ buffer = stream done ++ (dropped' ++ rest) ∧ (future = [] → rest = [])) ∨
        (¬CutInRange portions (dropped ++ buffer) ∧ left ≠ [] ∧
          ∃ text fault index, found.head? = some (brokenFrame text fault index))) := by
  induction portions generalizing dropped buffer with
  | nil =>
    have hall : Blank (dropped ++ (buffer ++ future)) := by
      rw [h]
      exact htrailing
    have hbuffer := blank_of_append_left (blank_of_append_right hall)
    have hboth := blank_append hdropped hbuffer
    refine ⟨[], [], [], [], rfl, drain_of_none (decode_blank hbuffer limit),
      .inl ⟨dropped ++ buffer, rfl, hboth, ?_, by simp [stream], fun _ => rfl⟩⟩
    rw [List.append_nil]
    exact cutInRange_of_blank hboth []
  | cons p portions ih =>
    rw [stream, List.append_assoc, List.append_assoc] at h
    obtain ⟨blanks, hblanks, hsplit⟩ := exists_blanks_of_dropped hdropped p.opens h
    have hblank : Blank blanks := by
      have hall := p.blank
      rw [hblanks] at hall
      exact blank_of_append_right hall
    rcases split_document hsplit p.text_ne_nil with
      ⟨blanks', rfl, -⟩ | ⟨q, rfl, hprefix, hne, hproper, hopen⟩ | ⟨buffer', rfl, hmore⟩
    · -- only blanks have come, and they are dropped
      have hbuffer := blank_of_append_left hblank
      have hboth := blank_append hdropped hbuffer
      refine ⟨[], p :: portions, [], [], rfl, drain_of_none (decode_blank hbuffer limit),
        .inl ⟨dropped ++ buffer, rfl, hboth, ?_, by simp [stream], fun _ => rfl⟩⟩
      rw [List.append_nil]
      exact cutInRange_of_blank hboth _
    · -- a part of the document has come
      have hcut : CutInRange (p :: portions) (dropped ++ (blanks ++ q)) ↔
          endsOutOfRange q = false := by
        rw [← List.append_assoc, ← hblanks]
        exact cutInRange_part hprefix hproper
      rcases decode_part hblank hprefix hne hproper hlimit with
        ⟨hrange, hkept⟩ | ⟨hrange, fault, index, rest, hbroken⟩
      · exact ⟨[], p :: portions, [], _, rfl, drain_of_none hkept,
          .inl ⟨dropped, rfl, hdropped, hcut.mpr hrange, rfl, fun hnil => absurd hnil hopen⟩⟩
      · refine ⟨[], p :: portions, _, _, rfl, drain_of_some hbroken,
          .inr ⟨?_, List.cons_ne_nil p portions, _, fault, index, rfl⟩⟩
        rw [hcut, hrange]
        exact Bool.noConfusion
    · -- the whole document has come
      have hwhole := p.decode_whole hblank limit buffer'
      have hshorter : buffer'.length ≤ limit := by
        simp only [List.length_append] at hlimit
        omega
      have hbytes : dropped ++ (blanks ++ (p.text ++ buffer')) = stream [p] ++ ([] ++ buffer') := by
        simp [stream, hblanks]
      obtain ⟨done, left, found, rest, rfl, hdrain, hcase⟩ := ih blank_nil hshorter hmore
      refine ⟨p :: done, left, found, rest, rfl, ?_, ?_⟩
      · rw [drain_of_some hwhole, hdrain]
        rfl
      rw [hbytes]
      rcases hcase with ⟨dropped', hfound, hdropped', hcut, hrest, hend⟩ | ⟨hcut, hleft, hbroken⟩
      · refine .inl ⟨dropped', hfound, hdropped', hcut, ?_, hend⟩
        rw [hrest, ← List.append_assoc, ← stream_append]
        rfl
      · refine .inr ⟨?_, hleft, hbroken⟩
        intro hall
        exact hcut ((cutInRange_append [p] _ _).mp hall)

/-! ### A stream cut into chunks -/

/-- No cut between two chunks falls where a number is too large. -/
def CutsInRange (portions : List Portion) (chunks : List (List UInt8)) : Prop :=
  ∀ front, front <+: chunks → CutInRange portions front.flatten

/-- The first cut comes behind the first chunk. -/
theorem cuts_cons {portions : List Portion} {bytes chunk : List UInt8} {chunks : List (List UInt8)}
    (hcut : CutInRange portions bytes) :
    (∀ front, front <+: chunk :: chunks → CutInRange portions (bytes ++ front.flatten)) ↔
      ∀ front, front <+: chunks → CutInRange portions (bytes ++ chunk ++ front.flatten) := by
  constructor
  · intro hall front hfront
    have hcons := hall (chunk :: front) (List.cons_prefix_cons.mpr ⟨rfl, hfront⟩)
    rwa [List.flatten_cons, ← List.append_assoc] at hcons
  · intro hall front hfront
    cases front with
    | nil =>
      rw [List.flatten_nil, List.append_nil]
      exact hcut
    | cons first front =>
      obtain ⟨rfl, hleft⟩ := List.cons_prefix_cons.mp hfront
      rw [List.flatten_cons, ← List.append_assoc]
      exact hall front hleft

/-- What is reported as broken takes the place of a document that is still to come. -/
theorem frames_ne_of_broken {done left : List Portion} {found more : List Frame} {fault : Fault}
    {text : List UInt8} {index : Nat} (hleft : left ≠ [])
    (hbroken : found.head? = some (brokenFrame text fault index)) :
    done.map frame ++ found ++ more ≠ (done ++ left).map frame := by
  intro hframes
  rw [List.map_append, List.append_assoc] at hframes
  have hheads := congrArg List.head? (List.append_cancel_left hframes)
  obtain ⟨p, behind, rfl⟩ := List.exists_cons_of_ne_nil hleft
  rw [List.head?_append, hbroken] at hheads
  exact frame_ne_broken p text fault index (Option.some.inj hheads).symm

/-- A stream comes out as its documents if and only if every cut still to come is in range. -/
theorem feed_portions_from {limit : Nat} {portions : List Portion}
    {trailing dropped buffer : List UInt8} {chunks : List (List UInt8)} (hdropped : Blank dropped)
    (htrailing : Blank trailing) (hlimit : (buffer ++ chunks.flatten).length ≤ limit)
    (h : dropped ++ (buffer ++ chunks.flatten) = stream portions ++ trailing)
    (hend : chunks.flatten = [] → buffer = []) (hcut : CutInRange portions (dropped ++ buffer)) :
    feed limit buffer chunks = (portions.map frame, []) ↔
      ∀ front, front <+: chunks → CutInRange portions (dropped ++ buffer ++ front.flatten) := by
  -- what is kept between two chunks is the front of the stream of the documents still to come
  induction chunks generalizing dropped buffer portions with
  | nil =>
    obtain rfl := hend rfl
    cases portions with
    | nil =>
      refine ⟨?_, fun _ => rfl⟩
      intro _ front hfront
      rw [List.prefix_nil.mp hfront, List.flatten_nil, List.append_nil]
      exact hcut
    | cons p portions =>
      -- all that is left are blanks, and a document is not among them
      rw [stream, List.append_assoc, List.append_assoc] at h
      obtain ⟨blanks, -, hblanks⟩ := exists_blanks_of_dropped hdropped p.opens h
      refine absurd ?_ p.text_ne_nil
      simp only [List.flatten_nil, List.append_nil] at hblanks
      exact (List.append_eq_nil_iff.mp (List.append_eq_nil_iff.mp hblanks.symm).2).1
  | cons chunk chunks ih =>
    rw [List.flatten_cons, ← List.append_assoc buffer] at h hlimit
    have hbuffer : (buffer ++ chunk).length ≤ limit :=
      (List.prefix_append _ chunks.flatten).length_le.trans hlimit
    rw [cuts_cons hcut, feed_cons, List.append_assoc dropped]
    obtain ⟨done, left, found, rest, rfl, hdrain, hcase⟩ :=
      drain_portions hdropped htrailing hbuffer h
    rw [hdrain]
    rcases hcase with ⟨dropped', rfl, hdropped', hcut', hrest, hdone⟩ |
      ⟨hcut', hleft, text, fault, index, hbroken⟩
    · have hmore : dropped' ++ (rest ++ chunks.flatten) = stream left ++ trailing := by
        rw [← List.append_assoc, hrest, stream_append] at h
        simp only [List.append_assoc] at h
        exact List.append_cancel_left h
      have hshorter : (rest ++ chunks.flatten).length ≤ limit := by
        have hkept : rest.length ≤ (buffer ++ chunk).length := by
          have hdrained := length_drain_le limit (buffer ++ chunk)
          rwa [hdrain] at hdrained
        rw [List.length_append] at hlimit ⊢
        omega
      have hfed := ih hdropped' hshorter hmore hdone hcut'
      have hfront : ∀ front : List (List UInt8),
          CutInRange (done ++ left) (dropped ++ (buffer ++ chunk) ++ front.flatten) ↔
            CutInRange left (dropped' ++ rest ++ front.flatten) := by
        intro front
        rw [hrest, List.append_assoc (stream done)]
        exact cutInRange_append done left _
      simp only [hfront, ← hfed, List.map_append, List.append_nil]
      constructor
      · intro heq
        obtain ⟨hframes, hkept⟩ := Prod.mk.inj heq
        exact Prod.ext (List.append_cancel_left hframes) hkept
      · intro heq
        rw [heq]
    · constructor
      · intro heq
        exact absurd (Prod.mk.inj heq).1 (frames_ne_of_broken hleft hbroken)
      · intro hall
        have hfirst := hall [] List.nil_prefix
        rw [List.flatten_nil, List.append_nil] at hfirst
        exact absurd hfirst hcut'

end Portion

/-! ### The limit -/

/-- The limit allows what a decoder without one would keep behind each chunk. -/
def Within (limit : Nat) (chunks : List (List UInt8)) : Prop :=
  ∀ front, front <+: chunks → (feed chunks.flatten.length [] front).2.length ≤ limit

/-- A limit that allows the whole stream allows each part of it. -/
theorem within_of_length_le {limit : Nat} {chunks : List (List UInt8)}
    (h : chunks.flatten.length ≤ limit) : Within limit chunks := by
  rintro front ⟨more, rfl⟩
  have hkept := length_feed_le (front ++ more).flatten.length [] front
  rw [List.flatten_append, List.length_append] at h
  simp only [List.length_nil, Nat.zero_add] at hkept
  omega

/-- Such a limit does not show. -/
theorem feed_of_within {limit : Nat} {chunks : List (List UInt8)} (h : Within limit chunks) :
    feed limit [] chunks = feed chunks.flatten.length [] chunks := by
  have hfronts : ∀ front, front <+: chunks →
      feed limit [] front = feed chunks.flatten.length [] front := by
    intro front
    induction front using List.reverseRecOn with
    | nil => exact fun _ => rfl
    | append_singleton front chunk ih =>
      intro hfront
      have hkept := h _ hfront
      rw [feed_concat] at hkept
      have hwide : ((feed chunks.flatten.length [] front).2 ++ chunk).length ≤
          chunks.flatten.length := by
        have hbefore := length_feed_le chunks.flatten.length [] front
        obtain ⟨more, hmore⟩ := hfront
        have hlength := congrArg (·.flatten.length) hmore
        simp only [List.flatten_append, List.length_append, List.flatten_singleton,
          List.length_nil] at hlength hbefore ⊢
        omega
      rw [feed_concat, feed_concat, ih ((List.prefix_append front [chunk]).trans hfront),
        drain_eq_of_short hwide hkept]
  exact hfronts chunks List.prefix_rfl

/-! ### Two ways of cutting a stream -/

/-- A stream comes out as its documents if and only if every cut is in range. -/
theorem feed_portions {limit : Nat} {portions : List Portion} {trailing : List UInt8}
    {chunks : List (List UInt8)} (htrailing : Blank trailing)
    (hchunks : chunks.flatten = Portion.stream portions ++ trailing)
    (hwithin : Within limit chunks) :
    feed limit [] chunks = (portions.map Portion.frame, []) ↔
      Portion.CutsInRange portions chunks := by
  rw [feed_of_within hwithin]
  exact Portion.feed_portions_from blank_nil htrailing (Nat.le_refl _) hchunks (fun _ => rfl)
    (Portion.cutInRange_of_blank blank_nil portions)

/-- **How a stream is cut makes no difference, except inside a number.** A stream of object
documents that are accepted by themselves, with blanks before, between and behind them, is fed chunk
by chunk to a decoder whose limit allows what it keeps. It comes out as the frames of those
documents, with nothing kept, if and only if no cut falls behind so much of a number that it is too
large so far. So two cuttings of which this holds come to the same. -/
theorem feed_cut {limit : Nat} {portions : List Portion} {trailing : List UInt8}
    {chunks chunks' : List (List UInt8)} (htrailing : Blank trailing)
    (hchunks : chunks.flatten = Portion.stream portions ++ trailing)
    (hchunks' : chunks'.flatten = chunks.flatten) (hwithin : Within limit chunks)
    (hwithin' : Within limit chunks') :
    (feed limit [] chunks = (portions.map Portion.frame, []) ↔
      Portion.CutsInRange portions chunks) ∧
    (Portion.CutsInRange portions chunks → Portion.CutsInRange portions chunks' →
      feed limit [] chunks = feed limit [] chunks' ∧ (feed limit [] chunks).2 = []) := by
  have hfirst := feed_portions htrailing hchunks hwithin
  have hsecond := feed_portions htrailing (hchunks'.trans hchunks) hwithin'
  refine ⟨hfirst, ?_⟩
  intro hcuts hcuts'
  rw [hfirst.mpr hcuts, hsecond.mpr hcuts']
  exact ⟨rfl, rfl⟩

/-- Where every part of every document is in range, so is every cut. -/
theorem Portion.cutsInRange_of_parts {portions : List Portion}
    (h : ∀ p ∈ portions, ∀ n ≤ p.text.length, endsOutOfRange (p.text.take n) = false)
    (chunks : List (List UInt8)) : CutsInRange portions chunks := by
  rintro front - done p left q rfl - hq
  rw [List.prefix_iff_eq_take.mp hq]
  exact h p (List.mem_append_right done List.mem_cons_self) q.length hq.length_le

/-- In one chunk no document is cut. -/
theorem Portion.cutsInRange_whole (portions : List Portion) {trailing : List UInt8}
    (htrailing : Blank trailing) : CutsInRange portions [stream portions ++ trailing] := by
  intro front hfront
  rcases List.prefix_cons_iff.mp hfront with rfl | ⟨more, rfl, hmore⟩
  · exact cutInRange_of_blank blank_nil portions
  · obtain rfl := List.prefix_nil.mp hmore
    have hnone := (cutInRange_append portions [] _).mpr (cutInRange_of_blank htrailing [])
    rw [List.append_nil] at hnone
    rwa [List.flatten_singleton]

/-- Whether a text is one document and nothing else. -/
def isAlone (text : List UInt8) : Bool :=
  match Reading.front text with
  | .complete _ [] => true
  | _ => false

theorem exists_of_isAlone {text : List UInt8} (h : isAlone text = true) :
    ∃ v, Reading.front text = .complete v [] := by
  rw [isAlone] at h
  split at h
  · next v heq => exact ⟨v, heq⟩
  · cases h

/-- A document with a number, a surrogate pair and a character of two bytes. -/
def mixed : List UInt8 :=
  Utf8.encode "\x7b\"event\":\"a\",\"data\":[-1.5e3,\"\\ud83d\\ude00é\"]\x7d"

/-- Cut in each of them, it comes out as if it had come whole. -/
theorem feed_cut_mixed : ∃ v, Reading.front mixed = .complete v [] ∧
    feed 64 [] [[0x20], mixed.take 24, (mixed.drop 24).take 9, (mixed.drop 33).take 9,
      mixed.drop 42] = feed 64 [] [0x20 :: mixed] ∧
    feed 64 [] [0x20 :: mixed] = ([ofDocument v], []) := by
  have hmixed : isAlone mixed = true := by decide +kernel
  obtain ⟨v, halone⟩ := exists_of_isAlone hmixed
  have hblank : Blank [0x20] := by
    intro b hb
    rw [List.mem_singleton.mp hb]
    rfl
  let portion : Portion := ⟨[0x20], mixed, v, hblank, by decide, halone⟩
  have hcuts : ∀ chunks, Portion.CutsInRange [portion] chunks := by
    refine Portion.cutsInRange_of_parts ?_
    have hparts : ∀ n ≤ mixed.length, endsOutOfRange (mixed.take n) = false := by decide +kernel
    intro p hp
    rw [List.mem_singleton.mp hp]
    exact hparts
  have hwhole : [0x20 :: mixed].flatten = Portion.stream [portion] ++ [] := by
    simp [portion, Portion.stream]
  have hsame : [[0x20], mixed.take 24, (mixed.drop 24).take 9, (mixed.drop 33).take 9,
      mixed.drop 42].flatten = [0x20 :: mixed].flatten := by decide +kernel
  have hshort : [0x20 :: mixed].flatten.length ≤ 64 := by decide +kernel
  obtain ⟨hframes, heq⟩ := feed_cut blank_nil hwhole hsame (within_of_length_le hshort)
    (within_of_length_le (by rw [hsame]; exact hshort))
  exact ⟨v, halone, (heq (hcuts _) (hcuts _)).1.symm, hframes.mpr (hcuts _)⟩

/-- A document with a number that is 1, written with 309 zeros and an exponent that takes them
back. -/
def widened : List UInt8 :=
  Utf8.encode "\x7b\"event\":\"a\",\"data\":1" ++ List.replicate 309 0x30 ++ Utf8.encode "e-309\x7d"

/-- Cut before the exponent, it is reported as malformed. -/
theorem cut_before_exponent :
    ¬∀ (limit : Nat) (portions : List Portion) (trailing : List UInt8)
      (chunks chunks' : List (List UInt8)), Blank trailing →
      chunks.flatten = Portion.stream portions ++ trailing → chunks'.flatten = chunks.flatten →
      Within limit chunks → Within limit chunks' →
      feed limit [] chunks = feed limit [] chunks' ∧ (feed limit [] chunks).2 = [] := by
  intro h
  have hwidened : isAlone widened = true := by decide +kernel
  obtain ⟨v, halone⟩ := exists_of_isAlone hwidened
  let portion : Portion := ⟨[], widened, v, blank_nil, by decide +kernel, halone⟩
  have hwhole : [widened].flatten = Portion.stream [portion] ++ [] := by
    simp [portion, Portion.stream]
  have hsplit : [widened.take 330, widened.drop 330].flatten = [widened].flatten := by simp
  have hshort : [widened].flatten.length ≤ 512 := by decide +kernel
  have hwithin := within_of_length_le hshort
  have hwithin' : Within 512 [widened.take 330, widened.drop 330] :=
    within_of_length_le (by rw [hsplit]; exact hshort)
  obtain ⟨hsame, -⟩ := h 512 [portion] [] _ _ blank_nil hwhole hsplit hwithin hwithin'
  -- whole it comes out, so cut it does as well, and the cut is in range
  have hcuts := Portion.cutsInRange_whole [portion] blank_nil
  rw [← hwhole, List.flatten_singleton] at hcuts
  rw [(feed_portions blank_nil hwhole hwithin).mpr hcuts] at hsame
  have hrange := (feed_portions blank_nil (hsplit.trans hwhole) hwithin').mp hsame.symm
  have hpart := hrange [widened.take 330] ⟨[widened.drop 330], rfl⟩ [] portion []
    (widened.take 330) rfl (by simp [Portion.stream, portion]) (List.take_prefix 330 widened)
  have hlarge : endsOutOfRange (widened.take 330) = true := by decide +kernel
  rw [hlarge] at hpart
  cases hpart

end EnvelopeClient.Frame
