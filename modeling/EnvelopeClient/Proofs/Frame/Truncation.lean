import EnvelopeClient.Proofs.Frame.Documents
import EnvelopeClient.Proofs.Json.Interruption

/-!
# A message behind a truncated one

The buffer holds the beginning of a message and then another message, and the stream ends. Decoding
starts again at each brace of the truncated text in turn. The message is found if what stands before
each of those braces leaves no text that swallows it (`drain_truncated`): a text that was cut where
a value may stand does, because the message is read as that value, and so may a brace in a string.
-/

namespace EnvelopeClient.Frame

open Json

/-! ### The next brace -/

theorem fromBrace_eq (bytes : List UInt8) :
    fromBrace bytes = [] ∨ ∃ rest, fromBrace bytes = 0x7b :: rest := by
  induction bytes with
  | nil => exact .inl rfl
  | cons b rest ih =>
    by_cases h : b = 0x7b
    · exact .inr ⟨rest, by simp [fromBrace, h]⟩
    · simpa [fromBrace, h] using ih

theorem fromBrace_suffix (bytes : List UInt8) : fromBrace bytes <:+ bytes :=
  List.dropWhile_suffix _

theorem fromBrace_append (bytes rest : List UInt8) :
    fromBrace (bytes ++ 0x7b :: rest) = fromBrace bytes ++ 0x7b :: rest := by
  induction bytes with
  | nil => simp [fromBrace]
  | cons b bytes ih =>
    by_cases h : b = 0x7b
    · simp [fromBrace, h]
    · simpa [fromBrace, h] using ih

/-- The broken document at the front begins behind the blanks. -/
theorem skipBroken_blank_append {blanks : List UInt8} (hblank : Blank blanks) {b : UInt8}
    (hb : isSpace b = false) (rest : List UInt8) :
    skipBroken (blanks ++ b :: rest) = fromBrace rest := by
  have hspace : ∀ c ∈ blanks, isSpace c = true := by
    intro c hc
    simp [isSpace, hblank c hc]
  rw [skipBroken, List.dropWhile_append_of_pos hspace, List.dropWhile_cons_of_neg (by simp [hb]),
    List.drop_one, List.tail_cons]

/-! ### What is found from a brace on -/

variable {cut message : List UInt8} {s : State}

/-- From every brace that stands in a string of a cut text on, the text is broken. -/
def BracesBreak (cut message : List UInt8) : Prop :=
  ∀ i < cut.length, cut[i]? = some 0x7b →
    (State.initial.run? (cut.take i)).any State.inString = true →
    brokenAtFront (cut.drop i ++ message) = true

instance (cut message : List UInt8) : Decidable (BracesBreak cut message) :=
  inferInstanceAs (Decidable (∀ i < cut.length, _))

/-- Behind its first brace a cut text is inside a container. -/
theorem inside_of_run? {p : List UInt8} (hopens : p.head? = some 0x7b)
    (hrun : State.initial.run? p = some s) : s.Inside := by
  obtain ⟨rest, rfl⟩ := List.head?_eq_some_iff.mp hopens
  have hstep : State.initial.step 0x7b = .more ⟨[], .firstKey⟩ := rfl
  rw [State.run?, hstep] at hrun
  exact State.inside_run? (State.inside_of_mode rfl rfl) hrun

/-- At a brace of the cut text stands a document that is broken at the message at the latest, or one
that is complete within the cut text. -/
theorem front_at_brace {p rest more : List UInt8} (hopens : cut.head? = some 0x7b)
    (hrun : State.initial.run? cut = some s) (hwants : s.wantsValue = false)
    (hbraces : BracesBreak cut (opening more)) (hcut : cut = p ++ 0x7b :: rest)
    (hp : p ≠ []) :
    brokenAtFront (0x7b :: rest ++ opening more) = true ∨
      ∃ v rest' e outer, rest' <:+ rest ∧
        Reading.front (0x7b :: rest ++ opening more) =
          .complete v (rest' ++ opening more) ∧
        (State.behind e outer v).run? rest' = some s := by
  have hopened : State.initial.step 0x7b = .more ⟨[], .firstKey⟩ := rfl
  subst hcut
  rw [State.run?_append] at hrun
  cases hbefore : State.initial.run? p with
  | none => simp [hbefore] at hrun
  | some r =>
    have hinside : r.Inside := by
      refine inside_of_run? ?_ hbefore
      cases p with
      | nil => exact absurd rfl hp
      | cons b p => exact hopens
    rw [hbefore, Option.bind_some, State.run?] at hrun
    cases hstep : r.step 0x7b with
    | done v taken => simp [hstep] at hrun
    | broken fault taken => simp [hstep] at hrun
    | more next =>
      rw [hstep] at hrun
      cases hstring : r.inString with
      | true =>
        left
        have hbreak := hbraces p.length (by simp) (by simp) (by simp [hbefore, hstring])
        simpa using hbreak
      | false =>
        obtain ⟨e, outer, rfl⟩ := State.opened_of_step_brace hinside hstring hstep
        -- read by itself, the object is what it is in the document
        have hinner : State.Inside ⟨[], .firstKey⟩ := State.inside_of_mode rfl rfl
        have hwithin : (State.within ⟨[], .firstKey⟩ (e :: outer)).run? rest = some s := hrun
        rcases State.run?_of_within hinner hwithin with
          ⟨q, hq, hqinside, rfl⟩ | ⟨p', b, rest', t, v, next, rfl, hrun', hdone, hnext, hrest⟩
        · left
          obtain ⟨fault, place, hbroken⟩ :=
            State.broken_of_opening hqinside hwants (1 + rest.length) more
          have hscan : scan .initial 0 (0x7b :: rest ++ opening more) = .broken fault place := by
            rw [List.cons_append, scan, hopened]
            exact (scan_append hq 1 _).trans hbroken
          exact brokenAtFront_of_broken (front_of_broken hscan)
        · right
          rw [State.deliverTaken_cons] at hnext
          cases hnext
          refine ⟨v, rest', e, outer, ⟨p' ++ [b], by simp⟩, ?_, hrest⟩
          refine front_of_brace rfl ?_
          rw [List.cons_append, scan, hopened, List.append_assoc]
          refine (scan_append hrun' 1 _).trans ?_
          rw [List.cons_append, scan, hdone]

/-- Behind a document inside the cut text a buffer is broken, unless only blanks are left of the
text. -/
theorem front_behind {e : Enclosing} {outer : List Enclosing} {v : Value} {rest : List UInt8}
    (hrun : (State.behind e outer v).run? rest = some s) (message : List UInt8) :
    Blank rest ∨ ∃ rest' index, rest' <:+ rest ∧ rest' ≠ rest ∧
      Reading.front (rest ++ message) = .broken .expectedValue index ∧
      skipBroken (rest ++ message) = fromBrace (rest' ++ message) := by
  rcases State.blank_or_separator hrun with hblank | ⟨blanks, b, rest', rfl, hblanks, hseparator⟩
  · exact .inl hblank
  · refine .inr ⟨rest', 0 + blanks.length + 1, ⟨blanks ++ [b], by simp⟩, ?_, ?_, ?_⟩
    · intro heq
      have hlength := congrArg List.length heq
      simp only [List.length_append, List.length_cons] at hlength
      omega
    · refine front_of_broken ?_
      rw [List.append_assoc, scan_blank_append hblanks, List.cons_append, scan,
        State.step_initial_separator hseparator]
    · rw [List.append_assoc, List.cons_append]
      refine skipBroken_blank_append hblanks ?_ _
      rcases hseparator with rfl | rfl | rfl <;> rfl

theorem skipBroken_brace (rest more : List UInt8) :
    skipBroken (0x7b :: rest ++ opening more) = fromBrace rest ++ opening more :=
  (skipBroken_blank_append blank_nil rfl _).trans (fromBrace_append rest _)

/-- **From any brace of the cut text on, the message behind it is found.** -/
theorem drain_from_brace (limit : Nat) {v : Value} {more u : List UInt8}
    (hopens : cut.head? = some 0x7b) (hrun : State.initial.run? cut = some s)
    (hwants : s.wantsValue = false) (hbraces : BracesBreak cut (opening more))
    (hdocument : Document (opening more) v) (hsuffix : u <:+ cut) (hproper : u ≠ cut)
    (hbrace : u = [] ∨ ∃ rest, u = 0x7b :: rest) :
    ∃ found, drainAtEnd limit (resynchronize (u ++ opening more)) =
      (found ++ [ofDocument v], []) := by
  have hmessage : ∀ {blanks}, Blank blanks → drainAtEnd limit (blanks ++ opening more) =
      ([ofDocument v], []) := by
    intro blanks hblank
    have hdecode := decode_document hblank hdocument limit []
    rw [List.append_nil] at hdecode
    rw [drainAtEnd_of_some (decodeAtEnd_of_some hdecode), drainAtEnd_nil]
  -- behind each brace comes a shorter text, and in the end the message
  induction h : u.length using Nat.strongRecOn generalizing u with
  | _ n ih =>
    have hnext : ∀ {rest}, rest <:+ u → rest ≠ u →
        ∃ found, drainAtEnd limit (resynchronize (fromBrace rest ++ opening more)) =
          (found ++ [ofDocument v], []) := by
      intro rest hrest hne
      have hbelow := fromBrace_suffix rest
      have hshorter : rest.length < u.length :=
        Nat.lt_of_le_of_ne hrest.length_le fun heq => hne (hrest.eq_of_length heq)
      have hlength := hbelow.length_le
      refine ih _ (by omega) (hbelow.trans (hrest.trans hsuffix)) ?_ (fromBrace_eq rest) rfl
      rintro heq
      have hall := hsuffix.length_le
      rw [← heq] at hall
      omega
    rcases hbrace with rfl | ⟨rest, rfl⟩
    · have hfront := front_of_brace rfl hdocument.scan_eq
      rw [List.nil_append, resynchronize_of_not_broken (brokenAtFront_of_complete hfront)]
      exact ⟨[], hmessage blank_nil⟩
    · obtain ⟨p, rfl⟩ := hsuffix
      have hp : p ≠ [] := by
        rintro rfl
        exact hproper rfl
      rcases front_at_brace hopens hrun hwants hbraces rfl hp with
        hbroken | ⟨w, rest', e, outer, hrest', hfront, hrun'⟩
      · rw [resynchronize_of_broken hbroken, skipBroken_brace]
        exact hnext (List.suffix_cons 0x7b rest) (by simp)
      · rw [resynchronize_of_not_broken (brokenAtFront_of_complete hfront),
          drainAtEnd_of_some (decodeAtEnd_of_some (decode_of_complete hfront limit))]
        rcases front_behind hrun' (opening more) with
          hblank | ⟨rest'', index, hrest'', hne, hbroken, hskip⟩
        · exact ⟨[ofDocument w], by rw [hmessage hblank]; rfl⟩
        · have hbehind : rest'' <:+ 0x7b :: rest :=
            hrest''.trans (hrest'.trans (List.suffix_cons 0x7b rest))
          have hproper' : rest'' ≠ 0x7b :: rest := by
            rintro rfl
            have hlength := (hrest''.trans hrest').length_le
            simp only [List.length_cons] at hlength
            omega
          obtain ⟨found, hdrain⟩ := hnext hbehind hproper'
          rw [drainAtEnd_of_some (decodeAtEnd_of_some (decode_of_broken hbroken limit)), hskip,
            opening, fromBrace_append, ← opening, hdrain]
          exact ⟨ofDocument w :: brokenFrame _ _ index :: found, rfl⟩

/-! ### A truncated message and another behind it -/

theorem exists_opening (e : Envelope) : ∃ rest, e.toBytes = opening rest := by
  have hname : "\"event\":".toList = '"' :: 'e' :: 'v' :: "ent\":".toList := by decide
  rw [Envelope.toBytes, Utf8.encode_eq_bytes, Envelope.toList_text, hname]
  exact ⟨_, rfl⟩

/-- The frame for an incomplete document at the end of the stream. -/
def truncated (length : Nat) : Frame :=
  .malformed s!"truncated message: {length} bytes at end of stream"

theorem drainAtEnd_of_incomplete {limit : Nat} {buffer : List UInt8} {what : Unfinished}
    (h : Reading.front buffer = .incomplete what) (hne : buffer ≠ [])
    (hlimit : buffer.length ≤ limit) :
    drainAtEnd limit buffer = ([truncated buffer.length], []) := by
  have hdecode : decode limit buffer = (none, buffer) := by
    rw [decode, h]
    exact if_neg (Nat.not_lt_of_le hlimit)
  have hend : decodeAtEnd limit buffer = (some (truncated buffer.length), []) := by
    rw [decodeAtEnd, hdecode]
    cases buffer with
    | nil => exact absurd rfl hne
    | cons b bytes => rfl
  rw [drainAtEnd_of_some hend, drainAtEnd_nil]

theorem drainAtEnd_of_broken (limit : Nat) {buffer : List UInt8} {fault : Fault} {index : Nat}
    (h : scan .initial 0 buffer = .broken fault index) :
    drainAtEnd limit buffer =
      (brokenFrame buffer fault index ::
        (drainAtEnd limit (resynchronize (skipBroken buffer))).1, []) := by
  rw [drainAtEnd_of_some (decodeAtEnd_of_some (decode_of_broken (front_of_broken h) limit)),
    drainAtEnd_snd]

/-- **What becomes of a message behind a truncated one.** At the end of the stream something is
always reported as malformed, and nothing is kept. If the truncated message was cut where a value
may stand, the message behind it is taken for that value and lost, unless it nests too deep there.
If it was cut anywhere else, the message behind it is the last that is found, unless a brace in a
string of the truncated one begins a text that is not broken at the message. -/
theorem drain_truncated {limit : Nat} {d₁ d₂ : Envelope} {cut : List UInt8}
    (h₁ : d₁.data.Travels) (h₂ : d₂.data.Travels) (hcut : cut <+: d₁.toBytes) (hne : cut ≠ [])
    (hproper : cut ≠ d₁.toBytes) (hlimit : (cut ++ d₂.toBytes).length ≤ limit) :
    ∃ s, State.initial.run? cut = some s ∧
      (∃ reason found,
        drainAtEnd limit (cut ++ d₂.toBytes) = (.malformed reason :: found, [])) ∧
      (s.wantsValue = true →
        (∀ place, scan .initial 0 (cut ++ d₂.toBytes) ≠ .broken .recursionLimit place) →
        ∃ reason, drainAtEnd limit (cut ++ d₂.toBytes) = ([.malformed reason], [])) ∧
      (s.wantsValue = false → BracesBreak cut d₂.toBytes →
        ∃ reason found, drainAtEnd limit (cut ++ d₂.toBytes) =
          (.malformed reason :: (found ++ [.envelope d₂]), [])) := by
  have hdocument := d₂.document_toBytes h₂
  obtain ⟨s, hrun, -⟩ := (d₁.document_toBytes h₁).part hcut hne hproper
  have hopens : cut.head? = some 0x7b := by
    obtain ⟨left, hleft⟩ := hcut
    have hhead := (d₁.document_toBytes h₁).opens
    rw [← hleft, List.head?_append] at hhead
    cases cut with
    | nil => exact absurd rfl hne
    | cons b rest => exact hhead
  have hinside := inside_of_run? hopens hrun
  have hscan := scan_append hrun 0 d₂.toBytes
  obtain ⟨more, hmore⟩ := exists_opening d₂
  refine ⟨s, hrun, ?_⟩
  cases hwants : s.wantsValue with
  | true =>
    rcases State.scan_at_value hinside hwants hdocument (0 + cut.length) with
      ⟨what, hincomplete⟩ | ⟨place, hdeep⟩
    · have hfront : Reading.front (cut ++ d₂.toBytes) = .incomplete what := by
        rw [Reading.front, hscan, hincomplete]
      have hdrain := drainAtEnd_of_incomplete hfront (by simp [hne]) hlimit
      exact ⟨⟨_, [], hdrain⟩, fun _ _ => ⟨_, hdrain⟩, fun h => absurd h Bool.noConfusion⟩
    · have hbroken := hscan.trans hdeep
      exact ⟨⟨_, _, drainAtEnd_of_broken limit hbroken⟩, fun _ h => absurd hbroken (h place),
        fun h => absurd h Bool.noConfusion⟩
  | false =>
    obtain ⟨fault, place, hopening⟩ :=
      State.broken_of_opening hinside hwants (0 + cut.length) more
    have hbroken := hscan.trans (hmore ▸ hopening)
    have hdrain := drainAtEnd_of_broken limit hbroken
    refine ⟨⟨_, _, hdrain⟩, fun h => absurd h Bool.noConfusion, fun _ hbraces => ?_⟩
    rw [hmore] at hdocument hbraces hdrain ⊢
    obtain ⟨rest, rfl⟩ := List.head?_eq_some_iff.mp hopens
    have hshorter : fromBrace rest ≠ 0x7b :: rest := by
      intro heq
      have hlength := (fromBrace_suffix rest).length_le
      rw [heq, List.length_cons] at hlength
      omega
    obtain ⟨found, hfound⟩ := drain_from_brace limit hopens hrun hwants hbraces hdocument
      ((fromBrace_suffix rest).trans (List.suffix_cons 0x7b rest)) hshorter (fromBrace_eq rest)
    rw [skipBroken_brace, hfound] at hdrain
    exact ⟨_, found, hdrain⟩

/-- A message with a brace in its event and an empty object in its data. -/
def braced : Envelope := ⟨"a\x7bb", .array [.object [], .int 1]⟩

/-- Cut behind that object, it does not keep a message from being found. -/
theorem drain_truncated_braced : ∃ reason found,
    drainAtEnd 64 (braced.toBytes.take 25 ++ nested.toBytes) =
      (.malformed reason :: (found ++ [.envelope nested]), []) := by
  have h₁ : braced.data.Travels :=
    ⟨⟨⟨trivial, List.Pairwise.nil⟩, rfl, trivial⟩, rfl, by decide⟩
  have h₂ : nested.data.Travels :=
    ⟨⟨⟨⟨trivial, trivial⟩, List.pairwise_singleton _ _⟩, trivial⟩, rfl, by decide⟩
  have hlimit : (braced.toBytes.take 25 ++ nested.toBytes).length ≤ 64 := by decide
  obtain ⟨s, hrun, -, -, hfound⟩ :=
    drain_truncated h₁ h₂ (List.take_prefix 25 _) (by decide) (by decide) hlimit
  have hwants : (State.initial.run? (braced.toBytes.take 25)).all (!·.wantsValue) = true := by
    decide
  rw [hrun] at hwants
  exact hfound (by simpa using hwants) (by decide)

/-- A message cut where its data would begin. -/
def cutBeforeData : List UInt8 := Utf8.encode "\x7b\"event\":\"a\",\"data\":"

/-- The message behind it is lost. -/
theorem message_behind_cut_lost :
    drainAtEnd 64 (cutBeforeData ++ Envelope.toBytes ⟨"b", .int 1⟩) = ([truncated 42], []) := by
  have hfront : Reading.front (cutBeforeData ++ Envelope.toBytes ⟨"b", .int 1⟩) =
      .incomplete .object := rfl
  exact drainAtEnd_of_incomplete hfront (by decide) (by decide)

end EnvelopeClient.Frame
