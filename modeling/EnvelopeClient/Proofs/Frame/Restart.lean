import EnvelopeClient.Proofs.Frame.Cuts
import EnvelopeClient.Proofs.Frame.Truncation

/-!
# Where decoding starts again

Behind broken text decoding starts again at the first brace from which on the text is not broken
(`RestartsFrom`). Skipping looks for it behind the byte at which it takes the broken text to begin
(`decode_restarts`). That byte is the one the reader found, unless form feeds stand there: the
reader has them begin the broken text, skipping passes over them. Then a message right behind them
is passed over as well (`message_behind_form_feed_lost`).
-/

namespace EnvelopeClient.Frame

open Json

/-- Decoding may start again at a place: there is a brace, and the text from it on is not broken. -/
def IsRestart (bytes : List UInt8) (place : Nat) : Prop :=
  bytes[place]? = some 0x7b ∧ brokenAtFront (bytes.drop place) = false

instance (bytes : List UInt8) (place : Nat) : Decidable (IsRestart bytes place) :=
  inferInstanceAs (Decidable (_ ∧ _))

/-- What is left when decoding starts again at the first place it may, from some place on. -/
inductive RestartsFrom (bytes : List UInt8) (start : Nat) : List UInt8 → Prop where
  | found {place : Nat} (hfrom : start ≤ place) (hrestart : IsRestart bytes place)
      (hfirst : ∀ p, start ≤ p → p < place → ¬IsRestart bytes p) :
      RestartsFrom bytes start (bytes.drop place)
  | nowhere (h : ∀ p, start ≤ p → ¬IsRestart bytes p) : RestartsFrom bytes start []

/-- Where the text at the front begins, behind the blanks. -/
def beginning (bytes : List UInt8) : Nat := (bytes.takeWhile isBlank).length

/-- Where skipping takes it to begin, behind form feeds too. -/
def skippedTo (bytes : List UInt8) : Nat := (bytes.takeWhile isSpace).length

variable {bytes rest other : List UInt8} {start place : Nat}

/-! ### The first place -/

theorem IsRestart.lt (h : IsRestart bytes place) : place < bytes.length :=
  (List.getElem?_eq_some_iff.mp h.1).1

namespace RestartsFrom

/-- There is only one first place. -/
theorem unique (h : RestartsFrom bytes start rest) (h' : RestartsFrom bytes start other) :
    rest = other := by
  cases h with
  | found hfrom hrestart hfirst =>
    cases h' with
    | found hfrom' hrestart' hfirst' =>
      congr 1
      refine Nat.le_antisymm (Nat.le_of_not_lt fun hlt => ?_) (Nat.le_of_not_lt fun hlt => ?_)
      · exact hfirst _ hfrom' hlt hrestart'
      · exact hfirst' _ hfrom hlt hrestart
    | nowhere hnone => exact absurd hrestart (hnone _ hfrom)
  | nowhere hnone =>
    cases h' with
    | found hfrom' hrestart' hfirst' => exact absurd hrestart' (hnone _ hfrom')
    | nowhere hnone' => rfl

/-- A place may be looked for from further in front if there is none before. -/
theorem widen {later : Nat} (h : RestartsFrom bytes later rest) (hle : start ≤ later)
    (hnone : ∀ p, start ≤ p → p < later → ¬IsRestart bytes p) : RestartsFrom bytes start rest := by
  have hsplit : ∀ {p}, start ≤ p → (later ≤ p → ¬IsRestart bytes p) → ¬IsRestart bytes p := by
    intro p hp hlater
    by_cases hcase : p < later
    · exact hnone p hp hcase
    · exact hlater (Nat.le_of_not_lt hcase)
  cases h with
  | found hfrom hrestart hfirst =>
    exact .found (Nat.le_trans hle hfrom) hrestart fun p hp hlt =>
      hsplit hp fun hlater => hfirst p hlater hlt
  | nowhere h => exact .nowhere fun p hp => hsplit hp (h p)

/-- Behind a place where decoding may start again less is left than from there on. -/
theorem ne_drop (h : RestartsFrom bytes (place + 1) rest) (hrestart : IsRestart bytes place) :
    rest ≠ bytes.drop place := by
  have hlt := hrestart.lt
  intro heq
  have hlength := congrArg List.length heq
  cases h with
  | found hfrom hlater hfirst =>
    have hlt' := hlater.lt
    simp only [List.length_drop] at hlength
    omega
  | nowhere h =>
    simp only [List.length_nil, List.length_drop] at hlength
    omega

end RestartsFrom

/-! ### Skipping finds it -/

theorem dropWhile_eq_drop (p : UInt8 → Bool) (bytes : List UInt8) :
    bytes.dropWhile p = bytes.drop (bytes.takeWhile p).length := by
  have hsplit := congrArg (List.drop (bytes.takeWhile p).length)
    (List.takeWhile_append_dropWhile (p := p) (l := bytes))
  rwa [List.drop_left] at hsplit

/-- No brace stands before the one that is found. -/
theorem exists_before_brace (bytes : List UInt8) :
    ∃ before, bytes = before ++ fromBrace bytes ∧ 0x7b ∉ before := by
  refine ⟨bytes.takeWhile (· ≠ 0x7b), List.takeWhile_append_dropWhile.symm, ?_⟩
  intro hmem
  simpa using List.mem_takeWhile_imp hmem

theorem restartsFrom_resynchronize (bytes : List UInt8) (start : Nat) :
    RestartsFrom bytes start (resynchronize (fromBrace (bytes.drop start))) := by
  induction h : (bytes.drop start).length using Nat.strongRecOn generalizing start with
  | _ n ih =>
    obtain ⟨before, hbefore, hnone⟩ := exists_before_brace (bytes.drop start)
    have hplace : ∀ p, start ≤ p → p < start + before.length → ¬IsRestart bytes p := by
      rintro p hp hlt ⟨hbrace, -⟩
      have hget : (bytes.drop start)[p - start]? = some 0x7b := by
        rw [List.getElem?_drop, Nat.add_sub_cancel' hp]
        exact hbrace
      rw [hbefore, List.getElem?_append_left (by omega)] at hget
      exact hnone (List.mem_of_getElem? hget)
    rcases fromBrace_eq (bytes.drop start) with hnil | ⟨rest, hrest⟩
    · rw [hnil, List.append_nil] at hbefore
      rw [hnil, resynchronize_of_not_broken rfl]
      refine .nowhere fun p hp => ?_
      by_cases hlt : p < start + before.length
      · exact hplace p hp hlt
      · intro hrestart
        have hend := hrestart.lt
        have hlength := congrArg List.length hbefore
        rw [List.length_drop] at hlength
        omega
    · have hdrop : bytes.drop (start + before.length) = 0x7b :: rest := by
        rw [← List.drop_drop, hbefore, hrest, List.drop_left]
      have hbrace : bytes[start + before.length]? = some 0x7b := by
        rw [← List.head?_drop, hdrop]
        rfl
      rw [hrest]
      cases hbroken : brokenAtFront (0x7b :: rest) with
      | false =>
        rw [resynchronize_of_not_broken hbroken, ← hdrop]
        exact .found (Nat.le_add_right _ _) ⟨hbrace, by rw [hdrop]; exact hbroken⟩ hplace
      | true =>
        have hnext : bytes.drop (start + before.length + 1) = rest := by
          rw [← List.drop_drop, hdrop]
          rfl
        have hskip : skipBroken (0x7b :: rest) = fromBrace rest :=
          skipBroken_blank_append blank_nil rfl rest
        have hlength : rest.length < n := by
          rw [← h, hbefore, hrest, List.length_append, List.length_cons]
          omega
        rw [resynchronize_of_broken hbroken, hskip, ← hnext]
        refine (ih _ (hnext ▸ hlength) (start + before.length + 1) rfl).widen (by omega) ?_
        intro p hp hlt hrestart
        rcases Nat.lt_succ_iff_lt_or_eq.mp hlt with hlt | rfl
        · exact hplace p hp hlt hrestart
        · rw [IsRestart, hdrop, hbroken] at hrestart
          cases hrestart.2

/-- Skipping starts behind the byte at which it takes the broken text to begin. -/
theorem restartsFrom_skipBroken (bytes : List UInt8) :
    RestartsFrom bytes (skippedTo bytes + 1) (resynchronize (skipBroken bytes)) := by
  have hskip : skipBroken bytes = fromBrace (bytes.drop (skippedTo bytes + 1)) := by
    rw [skipBroken, dropWhile_eq_drop, List.drop_drop, skippedTo]
  rw [hskip]
  exact restartsFrom_resynchronize bytes _

/-! ### Form feeds -/

theorem beginning_le (bytes : List UInt8) : beginning bytes ≤ skippedTo bytes := by
  induction bytes with
  | nil => exact Nat.le_refl 0
  | cons b bytes ih =>
    rw [beginning, skippedTo] at ih ⊢
    cases hblank : isBlank b with
    | false => simp [hblank]
    | true =>
      have hspace : isSpace b = true := by simp [isSpace, hblank]
      simpa [hblank, hspace] using ih

/-- What skipping passes over is no brace. -/
theorem not_isRestart_of_lt (h : place < skippedTo bytes) : ¬IsRestart bytes place := by
  rintro ⟨hbrace, -⟩
  have hget : (bytes.takeWhile isSpace)[place]? = some 0x7b := by
    rw [← List.takeWhile_append_dropWhile (p := isSpace) (l := bytes),
      List.getElem?_append_left h] at hbrace
    exact hbrace
  have hspace := List.mem_takeWhile_imp (List.mem_of_getElem? hget)
  cases hspace

/-- Skipping misses the first place behind the beginning of the broken text only if it stands there
itself. -/
theorem restartsFrom_beginning_iff (h : RestartsFrom bytes (skippedTo bytes + 1) rest) :
    RestartsFrom bytes (beginning bytes + 1) rest ↔
      ¬(beginning bytes < skippedTo bytes ∧ IsRestart bytes (skippedTo bytes)) := by
  have hle := beginning_le bytes
  constructor
  · rintro hbeginning ⟨hlt, hrestart⟩
    refine h.ne_drop hrestart (hbeginning.unique (.found hlt hrestart ?_))
    exact fun p _ hp => not_isRestart_of_lt hp
  · intro hnot
    refine h.widen (by omega) fun p hp hlater hrestart => ?_
    rcases Nat.lt_succ_iff_lt_or_eq.mp hlater with hlt | rfl
    · exact not_isRestart_of_lt hlt hrestart
    · exact hnot ⟨by omega, hrestart⟩

/-! ### A message behind garbage -/

/-- No document is broken text, whatever follows it. -/
theorem brokenAtFront_of_portion (p : Portion) (more : List UInt8) :
    brokenAtFront (p.text ++ more) = false := by
  cases hfront : Reading.front (p.text ++ more) with
  | broken fault index =>
    have hwhole := p.decode_whole blank_nil 0 more
    rw [List.nil_append, decode_of_broken hfront] at hwhole
    have hframe := Option.some.inj (Prod.mk.inj hwhole).1
    exact absurd hframe.symm (p.frame_ne_broken _ fault index)
  | _ => rw [brokenAtFront, hfront]

/-- Behind something other than blanks and form feeds, the first brace is where skipping goes. -/
theorem skipBroken_append {garbage more : List UInt8} (hbrace : 0x7b ∉ garbage)
    (htext : ∃ b ∈ garbage, isSpace b = false) :
    skipBroken (garbage ++ more) = fromBrace more := by
  have hnone : ∀ {bytes : List UInt8}, bytes <:+ garbage →
      fromBrace (bytes ++ more) = fromBrace more := by
    intro bytes hsuffix
    refine List.dropWhile_append_of_pos fun b hb => ?_
    have hne : b ≠ 0x7b := by
      rintro rfl
      exact hbrace (hsuffix.subset hb)
    simpa using hne
  cases hrest : garbage.dropWhile isSpace with
  | nil =>
    obtain ⟨b, hmem, hb⟩ := htext
    rw [List.dropWhile_eq_nil_iff.mp hrest b hmem] at hb
    cases hb
  | cons b rest =>
    have hsuffix : rest <:+ garbage :=
      (List.suffix_cons b rest).trans (hrest ▸ List.dropWhile_suffix isSpace)
    rw [skipBroken, List.dropWhile_append, hrest]
    exact hnone hsuffix

/-- What is behind garbage is found there. -/
theorem drain_behind_garbage (limit : Nat) {garbage : List UInt8} {fault : Fault} {index : Nat}
    (hbroken : Reading.front garbage = .broken fault index) (hbrace : 0x7b ∉ garbage)
    (htext : ∃ b ∈ garbage, isSpace b = false) (p : Portion) (more : List UInt8) :
    drain limit (garbage ++ (p.blanks ++ (p.text ++ more))) =
      (brokenFrame garbage fault index :: p.frame :: (drain limit more).1, (drain limit more).2) := by
  obtain ⟨text, htext'⟩ := List.head?_eq_some_iff.mp p.opens
  obtain ⟨b, behind, hbehind, hb⟩ : ∃ b behind,
      p.blanks ++ (p.text ++ more) = b :: behind ∧ setsOff b = true := by
    cases hblanks : p.blanks with
    | nil => exact ⟨0x7b, text ++ more, by rw [htext']; rfl, rfl⟩
    | cons b blanks =>
      have hblank := p.blank b (by simp [hblanks])
      exact ⟨b, _, List.cons_append, by simp [setsOff, hblank]⟩
  obtain ⟨hfront, hindex⟩ := front_broken_append hbroken hb behind
  have hframe : brokenFrame (garbage ++ b :: behind) fault index =
      brokenFrame garbage fault index := by
    simp only [brokenFrame, SyntaxError.ofFault, List.take_append_of_le_length hindex]
  have hfound : fromBrace (p.blanks ++ (p.text ++ more)) = p.text ++ more := by
    have hnot : ∀ c ∈ p.blanks, (c ≠ 0x7b : Bool) = true := by
      intro c hc
      have hblank := p.blank c hc
      have hne : c ≠ 0x7b := by
        rintro rfl
        cases hblank
      simpa using hne
    rw [fromBrace, List.dropWhile_append_of_pos hnot, htext']
    rfl
  have hdecode : decode limit (garbage ++ b :: behind) =
      (some (brokenFrame garbage fault index), p.text ++ more) := by
    rw [decode_of_broken hfront, hframe, skipBroken_append hbrace htext, ← hbehind, hfound,
      resynchronize_of_not_broken (brokenAtFront_of_portion p more)]
  have hwhole := p.decode_whole blank_nil limit more
  rw [List.nil_append] at hwhole
  rw [hbehind, drain_of_some hdecode, drain_of_some hwhole]

/-! ### The place decoding starts again at -/

/-- **Where decoding starts again.** Broken text is one frame, and what is left starts at the first
brace behind the byte that skipping takes for its beginning from which on the text is not broken. It
is the first behind the true beginning as well, unless form feeds stand at the beginning and decoding
could start again right behind them and the blanks around them. So garbage without a brace, if it is
more than blanks and form feeds, is reported once, and a document behind it is found. -/
theorem decode_restarts (limit : Nat) :
    (∀ buffer fault index, Reading.front buffer = .broken fault index →
      ∃ rest, decode limit buffer = (some (brokenFrame buffer fault index), rest) ∧
        RestartsFrom buffer (skippedTo buffer + 1) rest ∧
        (RestartsFrom buffer (beginning buffer + 1) rest ↔
          ¬(beginning buffer < skippedTo buffer ∧ IsRestart buffer (skippedTo buffer)))) ∧
    ∀ garbage fault index, Reading.front garbage = .broken fault index → 0x7b ∉ garbage →
      (∃ b ∈ garbage, isSpace b = false) → ∀ (p : Portion) more,
        drain limit (garbage ++ (p.blanks ++ (p.text ++ more))) =
          (brokenFrame garbage fault index :: p.frame :: (drain limit more).1,
            (drain limit more).2) := by
  refine ⟨?_, fun _ _ _ hbroken hbrace htext => drain_behind_garbage limit hbroken hbrace htext⟩
  intro buffer fault index hbroken
  have hrestarts := restartsFrom_skipBroken buffer
  exact ⟨_, decode_of_broken hbroken limit, hrestarts, restartsFrom_beginning_iff hrestarts⟩

/-- A brace that opens nothing, a form feed, another such brace, and a message. -/
def twiceBroken : List UInt8 := Utf8.encode "\x7b x\x0c\x7b\x7b\"event\":\"a\"\x7d"

/-- Of two broken texts one is reported and the message behind them is what is left; garbage before a
message is reported, and the message comes out. -/
theorem decode_restarts_twice :
    decode 64 twiceBroken =
      (some (brokenFrame twiceBroken .keyNotString 3), Utf8.encode "\x7b\"event\":\"a\"\x7d") ∧
    drain 64 (Utf8.encode "x " ++ ([] ++ (nested.toBytes ++ []))) =
      ([brokenFrame (Utf8.encode "x ") .expectedValue 1, .envelope nested], []) := by
  obtain ⟨hbroken, hgarbage⟩ := decode_restarts 64
  constructor
  · obtain ⟨rest, hdecode, hrestarts, -⟩ := hbroken twiceBroken .keyNotString 3 rfl
    have hplace : RestartsFrom twiceBroken (skippedTo twiceBroken + 1) (twiceBroken.drop 5) :=
      .found (by decide) (by decide) (by decide)
    rw [hdecode, hrestarts.unique hplace]
    rfl
  · have htravels : nested.data.Travels :=
      ⟨⟨⟨⟨trivial, trivial⟩, List.pairwise_singleton _ _⟩, trivial⟩, rfl, by decide⟩
    have hdocument := nested.document_toBytes htravels
    let message : Portion := ⟨[], nested.toBytes, nested.document, blank_nil, hdocument.opens,
      front_of_brace rfl hdocument.scan_eq⟩
    have hdrain := hgarbage (Utf8.encode "x ") .expectedValue 1 rfl (by decide)
      ⟨0x78, by decide, rfl⟩ message []
    rw [drain_nil] at hdrain
    exact hdrain

/-- A form feed before a message. -/
def formFed : List UInt8 := Utf8.encode "\x0c\x7b\"event\":\"a\",\"data\":1\x7d"

/-- The message right behind a form feed is lost. -/
theorem message_behind_form_feed_lost :
    ¬∀ (limit : Nat) (buffer : List UInt8) (fault : Fault) (index : Nat),
      Reading.front buffer = .broken fault index →
      ∃ rest, decode limit buffer = (some (brokenFrame buffer fault index), rest) ∧
        RestartsFrom buffer (beginning buffer + 1) rest := by
  intro h
  have hbroken : Reading.front formFed = .broken .expectedValue 1 := rfl
  have hlost : decode 64 formFed = (some (brokenFrame formFed .expectedValue 1), []) := by
    rw [decode_of_broken hbroken, resynchronize_of_not_broken (by decide)]
    rfl
  obtain ⟨rest, hdecode, hrestarts⟩ := h 64 formFed _ _ hbroken
  rw [hlost] at hdecode
  cases hdecode
  have hfirst : RestartsFrom formFed (beginning formFed + 1) (formFed.drop 1) :=
    .found (by decide) (by decide) fun p hp hlt => absurd hlt (Nat.not_lt_of_le hp)
  have hsame := hrestarts.unique hfirst
  revert hsame
  decide

end EnvelopeClient.Frame
