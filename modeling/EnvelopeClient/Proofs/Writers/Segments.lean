import EnvelopeClient.Proofs.Writers.Invariant

/-!
# Messages do not mix

In every run what is written is one segment after the other, one for each caller that got the write
half, in the order in which they asked for it (`written_in_turn`). A close that has got the write half
is the last to need it: nobody is left with anything to write (`Quiet`), and nobody comes who has.
-/

namespace EnvelopeClient.Writers

open Connection

variable {w : Writers} {caller : Caller}

/-! ### Who has had the write half -/

/-- Before it has the write half a caller writes nothing. -/
theorem Inv.wrote_of_not_obtained (h : w.Inv) (hcaller : caller ∈ w.callers)
    (hnot : w.hasObtained caller = false) : caller.wrote = [] := by
  have hgranted : caller.granted = false := (Bool.or_eq_false_iff.mp hnot).1
  exact (h.stands caller hcaller).silent hgranted

/-- The write half is granted in the order in which it is asked for: when a caller gets it, all who
asked before have left. -/
theorem Inv.not_lt_of_obtained (h : w.Inv) (hcaller : caller ∈ w.callers)
    (hobtained : w.hasObtained caller = true) {turn earlier : Nat}
    (hturn : caller.turn = some turn) (hmem : earlier ∈ w.connection.turns) : ¬earlier < turn := by
  intro hlt
  have hgranted := (h.stands caller hcaller).aside turn hturn ⟨earlier, hmem, hlt⟩
  have hhead : w.connection.turns.head? = some turn := by
    simpa [hasObtained, hgranted, hturn, hasTurn] using hobtained
  exact not_lt_of_head h.line hhead hmem hlt

theorem Inv.exists_turn (h : w.Inv) (hcaller : caller ∈ w.callers)
    (hobtained : w.hasObtained caller = true) : ∃ turn, caller.turn = some turn := by
  cases hturn : caller.turn with
  | some turn => exact ⟨turn, rfl⟩
  | none => simp [hasObtained, (h.stands caller hcaller).refused hturn, hturn] at hobtained

theorem flatMap_filter_of_nil {α β : Type} {f : α → List β} {p : α → Bool} {list : List α}
    (h : ∀ a ∈ list, p a = false → f a = []) : (list.filter p).flatMap f = list.flatMap f := by
  induction list with
  | nil => rfl
  | cons a rest ih =>
    have hrest := ih fun b hb => h b (List.mem_cons_of_mem a hb)
    cases hp : p a with
    | true => rw [List.filter_cons_of_pos hp, List.flatMap_cons, List.flatMap_cons, hrest]
    | false =>
      rw [List.filter_cons_of_neg (by simp [hp]), List.flatMap_cons, hrest,
        h a List.mem_cons_self hp, List.nil_append]

/-! ### Nothing more to write -/

/-- The connection is closed, and all calls that go on have written their messages. -/
structure Quiet (w : Writers) : Prop where
  closed : w.connection.status = .closed
  wrote : ∀ caller ∈ w.callers, ∀ call, caller.call? = some call →
    caller.wrote = caller.errand.text

/-- Behind a whole message nothing can be written. -/
theorem append_eq_nil_of_prefix {text more : List UInt8} (h : text ++ more <+: text) :
    more = [] := by
  have hlength := h.length_le
  rw [List.length_append] at hlength
  exact List.eq_nil_of_length_eq_zero (by omega)

theorem Quiet.advance (h : w.Quiet) {i : Nat} {call : Call} {caller' : Caller} {c' : Connection}
    {more : List UInt8} (hi : w.callers[i]? = some caller) (hcall : caller.call? = some call)
    (hadvances : Advances more w.connection c' caller caller') (hclosed : c'.status = .closed) :
    let next : Writers := { w with connection := c', callers := w.callers.set i caller' }
    next.Quiet ∧ next.written = w.written := by
  have hwhole := h.wrote caller (List.mem_of_getElem? hi) call hcall
  have hfront : caller.errand.text ++ more <+: caller.errand.text := by
    have hfront := hadvances.stands.front
    rwa [hadvances.wrote, hadvances.errand, hwhole] at hfront
  obtain rfl := append_eq_nil_of_prefix hfront
  refine ⟨⟨hclosed, ?_⟩, ?_⟩
  · intro other hother call' hcall'
    rcases List.mem_or_eq_of_mem_set hother with hother | rfl
    · exact h.wrote other hother call' hcall'
    · rw [hadvances.wrote, hadvances.errand, hwhole, List.append_nil]
  · show w.read ++ c'.outbound.unread = _
    rw [hadvances.unread, List.append_nil]
    rfl

theorem Quiet.step (h : w.Quiet) (hinv : w.Inv) (event : Event) :
    (w.step event).Quiet ∧ (w.step event).written = w.written := by
  have hclosed := (hinv.lasts_step event).closed h.closed
  cases event with
  | begin now errand =>
    obtain ⟨more, harrives⟩ :=
      arrives_of_asks hinv.line hinv.lt (asks_begin errand w.connection now)
    have hstands := harrives.stands
    -- whoever comes is refused, or closes
    have hbarred := harrives.barred h.closed
    have hmore : more = [] := harrives.wrote.symm.trans (hstands.wrote_of_barred hbarred)
    refine ⟨⟨hclosed, ?_⟩, ?_⟩
    · intro other hother call hcall
      rcases List.mem_append.mp hother with hother | hother
      · exact h.wrote other hother call hcall
      · obtain rfl := List.mem_singleton.mp hother
        exact hstands.whole_of_barred hbarred hcall
    · show w.read ++ (errand.begin w.connection now).2.outbound.unread = _
      rw [harrives.unread, hmore, List.append_nil]
      rfl
  | poll now i =>
    rcases step_poll_cases w now i with hsame | ⟨caller, call, hi, hcall, hnext⟩
    · rw [hsame]
      exact ⟨h, rfl⟩
    · have hstands := hinv.stands caller (List.mem_of_getElem? hi)
      obtain ⟨more, hadvances⟩ := advances_poll hstands hcall now hinv.line
      rw [hnext] at hclosed ⊢
      exact h.advance hi hcall hadvances hclosed
  | drop i =>
    rcases step_drop_cases w i with hsame | ⟨caller, call, hi, hcall, hnext⟩
    · rw [hsame]
      exact ⟨h, rfl⟩
    · have hstands := hinv.stands caller (List.mem_of_getElem? hi)
      rw [hnext] at hclosed ⊢
      exact h.advance hi hcall (advances_drop hstands hcall) hclosed
  | incident what =>
    obtain ⟨hunread, -⟩ := befall_line w.connection what
    refine ⟨⟨hclosed, h.wrote⟩, ?_⟩
    show (w.read ++ readAt w.connection what) ++ (w.connection.befall what).outbound.unread = _
    rw [List.append_assoc, ← hunread]
    rfl

/-- Once nobody has anything to write, nothing is written any more. -/
theorem Quiet.run (h : w.Quiet) (hinv : w.Inv) (events : List Event) :
    (w.run events).written = w.written := by
  induction events generalizing w with
  | nil => rfl
  | cons event events ih =>
    obtain ⟨hquiet, hwritten⟩ := h.step hinv event
    exact (ih hquiet (hinv.step event)).trans hwritten

/-- When a close has got the write half, those before it have left, and those behind it have nothing
to write. -/
theorem Inv.quiet (h : w.Inv) {closer : Caller} (hcloser : closer ∈ w.callers)
    (hclose : closer.errand = .close) (hobtained : w.hasObtained closer = true) : w.Quiet := by
  refine ⟨h.closed closer hcloser hclose, ?_⟩
  intro other hother call hcall
  have hstands := h.stands other hother
  cases hturn : call.turn? with
  | none =>
    rw [← hstands.left call hcall, Call.left_of_turn? hturn, List.append_nil]
  | some turn =>
    obtain ⟨hown, hmem⟩ := hstands.inLine call turn hcall hturn
    obtain ⟨last, hlast⟩ := h.exists_turn hcloser hobtained
    obtain ⟨before, after, hcallers⟩ := List.append_of_mem hcloser
    have horder := h.order
    have hbars := h.bars
    rw [hcallers, List.pairwise_append, List.pairwise_cons] at horder hbars
    rw [hcallers, List.mem_append, List.mem_cons] at hother
    rcases hother with hbefore | rfl | hafter
    · have hlt := horder.2.2 other hbefore closer List.mem_cons_self turn hown last hlast
      exact absurd hlt (h.not_lt_of_obtained hcloser hobtained hlast hmem)
    · exact hstands.whole_of_barred (.inr (by rw [hclose]; rfl)) hcall
    · exact hstands.whole_of_barred (hbars.2.1.1 other hafter hclose) hcall

/-! ### Every run -/

/-- In every run what has been written is one segment for each caller that has got the write half,
in the order in which they asked for it, which is that in which they got it. A segment is the front
of its caller's message, and all of it if the caller succeeded, for which it has to get the write
half. Once a close has got the write half nothing is written any more. -/
theorem written_in_turn (peer : String) (capacity : Option Nat) (events : List Event) :
    let w := (start peer capacity).run events
    w.written = (w.callers.filter w.hasObtained).flatMap (·.wrote) ∧
    (w.callers.filterMap (·.turn)).Pairwise (· < ·) ∧
    (∀ caller ∈ w.callers, w.hasObtained caller = true → ∀ turn, caller.turn = some turn →
      ∀ waiting ∈ w.connection.turns, turn ≤ waiting) ∧
    (∀ caller ∈ w.callers, caller.wrote <+: caller.errand.text ∧
      (caller.succeeded = true →
        w.hasObtained caller = true ∧ caller.wrote = caller.errand.text)) ∧
    ∀ closer ∈ w.callers, closer.errand = .close → w.hasObtained closer = true →
      ∀ later, (w.run later).written = w.written := by
  intro w
  have hinv : w.Inv := (inv_start peer capacity).run events
  refine ⟨?_, ?_, ?_, ?_, ?_⟩
  · rw [flatMap_filter_of_nil fun caller hcaller => hinv.wrote_of_not_obtained hcaller]
    exact hinv.written
  · rw [List.pairwise_filterMap]
    exact hinv.order.imp fun h turn hturn later hlater => h turn hturn later hlater
  · intro caller hcaller hobtained turn hturn waiting hmem
    exact Nat.le_of_not_lt (hinv.not_lt_of_obtained hcaller hobtained hturn hmem)
  · intro caller hcaller
    have hstands := hinv.stands caller hcaller
    refine ⟨hstands.front, ?_⟩
    intro hsucceeded
    exact ⟨by rw [hasObtained, hstands.done hsucceeded, Bool.true_or], hstands.whole hsucceeded⟩
  · intro closer hcloser hclose hobtained later
    exact (hinv.quiet hcloser hclose hobtained).run hinv later

end EnvelopeClient.Writers
