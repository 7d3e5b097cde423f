import EnvelopeClient.Proofs.Connection.Calls
import EnvelopeClient.Proofs.Connection.Lifecycle
import EnvelopeClient.Proofs.Connection.Reading
import EnvelopeClient.Proofs.Writers.Caller

/-!
# What holds of callers that share a write half

`Writers.Inv` puts the callers together: what was written is what they wrote, one after the other.
That is so because whoever writes is at the head of the line, and those who asked behind it have
written nothing (`Inv.wrote_behind`). A close is in line like everybody else, and since a connection
that has begun to close accepts no message any more, nobody behind it has anything to write
(`Caller.Bars`).
-/

namespace EnvelopeClient

theorem exists_set {α : Type} {list : List α} {i : Nat} {a : α} (h : list[i]? = some a) :
    ∃ before after, list = before ++ a :: after ∧ ∀ b, list.set i b = before ++ b :: after := by
  obtain ⟨hlt, rfl⟩ := List.getElem?_eq_some_iff.mp h
  refine ⟨list.take i, list.drop (i + 1), ?_, ?_⟩
  · rw [List.getElem_cons_drop, List.take_append_drop]
  · intro b
    rw [List.set_eq_take_append_cons_drop, if_pos hlt]

/-- What holds in pairs still holds if one is replaced by its like. -/
theorem pairwise_replace {α : Type} {R : α → α → Prop} {before after : List α} {a b : α}
    (hleft : ∀ x, R x a → R x b) (hright : ∀ x, R a x → R b x)
    (h : (before ++ a :: after).Pairwise R) : (before ++ b :: after).Pairwise R := by
  rw [List.pairwise_append, List.pairwise_cons] at h ⊢
  obtain ⟨hbefore, ⟨hafter, hrest⟩, hacross⟩ := h
  refine ⟨hbefore, ⟨fun x hx => hright x (hafter x hx), hrest⟩, ?_⟩
  intro x hx y hy
  rcases List.mem_cons.mp hy with rfl | hy
  · exact hleft x (hacross x hx a List.mem_cons_self)
  · exact hacross x hx y (List.mem_cons_of_mem a hy)

namespace Caller

/-- Of two callers the first asked first, if both have asked. -/
def Earlier (a b : Caller) : Prop :=
  ∀ turn, a.turn = some turn → ∀ later, b.turn = some later → turn < later

/-- Who asks behind a close has nothing to write. -/
def Bars (a b : Caller) : Prop := a.errand = .close → b.turn = none ∨ b.errand.text = []

end Caller

namespace Writers

open Connection

/-- What always holds of callers that share a write half. -/
structure Inv (w : Writers) : Prop where
  written : w.written = w.callers.flatMap (·.wrote)
  line : w.connection.turns.Pairwise (· < ·)
  lt : ∀ turn ∈ w.connection.turns, turn < w.connection.nextTurn
  stands : ∀ caller ∈ w.callers,
    caller.Stands w.connection.turns w.connection.nextTurn
  order : w.callers.Pairwise Caller.Earlier
  bars : w.callers.Pairwise Caller.Bars
  closed : ∀ caller ∈ w.callers, caller.errand = .close → w.connection.status = .closed
  held : w.connection.released = false

variable {w : Writers} {c' : Connection} {caller caller' : Caller} {more : List UInt8} {i : Nat}

theorem inv_start (peer : String) (capacity : Option Nat) : (start peer capacity).Inv where
  written := rfl
  line := .nil
  lt _ hmem := absurd hmem List.not_mem_nil
  stands _ hmem := absurd hmem List.not_mem_nil
  order := .nil
  bars := .nil
  closed _ hmem := absurd hmem List.not_mem_nil
  held := rfl

/-- Whoever asked behind the head of the line has written nothing. -/
theorem Inv.wrote_behind (h : w.Inv) {before after : List Caller} {turn : Nat}
    (hcallers : w.callers = before ++ caller :: after) (hturn : caller.turn = some turn)
    (hmem : turn ∈ w.connection.turns) : after.flatMap (·.wrote) = [] := by
  rw [List.flatMap_eq_nil_iff]
  intro other hother
  have hin : other ∈ w.callers := by simp [hcallers, hother]
  have hstands := h.stands other hin
  have hearlier : caller.Earlier other := by
    have horder := h.order
    rw [hcallers, List.pairwise_append, List.pairwise_cons] at horder
    exact horder.2.1.1 other hother
  cases hown : other.turn with
  | none => exact hstands.silent (hstands.refused hown)
  | some later =>
    exact hstands.silent (hstands.aside later hown ⟨turn, hmem, hearlier turn hturn later hown⟩)

/-- Two callers have different turns. -/
theorem Inv.turn_ne (h : w.Inv) {before after : List Caller}
    (hcallers : w.callers = before ++ caller :: after) {other : Caller}
    (hother : other ∈ before ++ after) {turn : Nat} (hturn : caller.turn = some turn) :
    other.turn ≠ some turn := by
  intro hsame
  have horder := h.order
  rw [hcallers, List.pairwise_append, List.pairwise_cons] at horder
  obtain ⟨-, ⟨hafter, -⟩, hbefore⟩ := horder
  rcases List.mem_append.mp hother with hother | hother
  · exact absurd (hbefore other hother caller List.mem_cons_self turn hsame turn hturn)
      (Nat.lt_irrefl _)
  · exact absurd (hafter other hother turn hturn turn hsame) (Nat.lt_irrefl _)

theorem Inv.advance (h : w.Inv) (hi : w.callers[i]? = some caller)
    (hadvances : Advances more w.connection c' caller caller')
    (hclosed : w.connection.status = .closed → c'.status = .closed)
    (hreleased : c'.released = w.connection.released) :
    Inv { w with connection := c', callers := w.callers.set i caller' } := by
  obtain ⟨before, after, hcallers, hset⟩ := exists_set hi
  have hcaller : caller ∈ w.callers := by simp [hcallers]
  rw [hset]
  refine ⟨?_, h.line.sublist hadvances.sublist, ?_, ?_, ?_, ?_, ?_, hreleased.trans h.held⟩
  · show w.read ++ c'.outbound.unread = _
    have hwritten : w.read ++ w.connection.outbound.unread = _ := h.written
    rw [hadvances.unread, ← List.append_assoc, hwritten, hcallers, List.flatMap_append,
      List.flatMap_append, List.flatMap_cons, List.flatMap_cons, hadvances.wrote]
    by_cases hmore : more = []
    · simp [hmore]
    · obtain ⟨turn, hturn, hhead⟩ := hadvances.head hmore
      rw [h.wrote_behind hcallers hturn (List.mem_of_mem_head? hhead)]
      simp
  · intro turn hmem
    rw [show c'.nextTurn = w.connection.nextTurn from hadvances.nextTurn]
    exact h.lt turn (hadvances.sublist.subset hmem)
  · intro other hother
    rw [List.mem_append, List.mem_cons, or_left_comm, ← List.mem_append] at hother
    rcases hother with rfl | hother
    · exact hadvances.stands
    · have hin : other ∈ w.callers := by
        rw [hcallers, List.mem_append, List.mem_cons, or_left_comm, ← List.mem_append]
        exact .inr hother
      refine (h.stands other hin).of_line (Nat.le_of_eq hadvances.nextTurn.symm)
        (fun turn hmem => .inl (hadvances.sublist.subset hmem)) ?_
      intro turn hmem hturn
      rcases hadvances.keeps turn hmem with hkept | hown
      · exact hkept
      · exact absurd hturn (h.turn_ne hcallers hother hown)
  · refine pairwise_replace ?_ ?_ (hcallers ▸ h.order)
    · intro x hx turn hturn later hlater
      exact hx turn hturn later (hadvances.turn ▸ hlater)
    · intro x hx turn hturn later hlater
      exact hx turn (hadvances.turn ▸ hturn) later hlater
  · refine pairwise_replace ?_ ?_ (hcallers ▸ h.bars)
    · intro x hx hclose
      rw [hadvances.turn, hadvances.errand]
      exact hx hclose
    · intro x hx hclose
      exact hx (hadvances.errand ▸ hclose)
  · intro other hother hclose
    refine hclosed ?_
    rw [List.mem_append, List.mem_cons] at hother
    rcases hother with hother | rfl | hother
    · exact h.closed other (by simp [hcallers, hother]) hclose
    · exact h.closed caller hcaller (hadvances.errand.symm.trans hclose)
    · exact h.closed other (by simp [hcallers, hother]) hclose

theorem Inv.arrive (h : w.Inv) (harrives : Arrives more w.connection c' caller)
    (hclosed : w.connection.status = .closed → c'.status = .closed)
    (hclose : caller.errand = .close → c'.status = .closed)
    (hreleased : c'.released = w.connection.released) :
    Inv { w with connection := c', callers := w.callers ++ [caller] } := by
  have hline := (pairwise_concat h.line h.lt).sublist harrives.line
  refine ⟨?_, hline, harrives.lt, ?_, ?_, ?_, ?_, hreleased.trans h.held⟩
  · show w.read ++ c'.outbound.unread = _
    have hwritten : w.read ++ w.connection.outbound.unread = _ := h.written
    rw [harrives.unread, ← List.append_assoc, hwritten, List.flatMap_append,
      List.flatMap_singleton, harrives.wrote]
  · intro other hother
    rcases List.mem_append.mp hother with hother | hother
    · refine (h.stands other hother).of_line harrives.nextTurn ?_
        (fun turn hmem _ => harrives.keeps turn hmem)
      intro turn hmem
      have hmem' := harrives.line.subset hmem
      rw [List.mem_append, List.mem_singleton] at hmem'
      rcases hmem' with hmem' | rfl
      · exact .inl hmem'
      · exact .inr (Nat.le_refl _)
    · rw [List.mem_singleton.mp hother]
      exact harrives.stands
  · rw [List.pairwise_append]
    refine ⟨h.order, List.pairwise_singleton _ _, ?_⟩
    intro other hother last hlast turn hturn later hlater
    rw [List.mem_singleton.mp hlast] at hlater
    have hlt := (h.stands other hother).lt turn hturn
    rcases harrives.turn with hnone | ⟨hsome, -⟩
    · rw [hnone] at hlater
      cases hlater
    · rw [hsome] at hlater
      cases hlater
      exact hlt
  · rw [List.pairwise_append]
    refine ⟨h.bars, List.pairwise_singleton _ _, ?_⟩
    intro other hother last hlast hclose'
    rw [List.mem_singleton.mp hlast]
    -- behind a close the connection is closed
    exact harrives.barred (h.closed other hother hclose')
  · intro other hother hclose'
    rcases List.mem_append.mp hother with hother | hother
    · exact hclosed (h.closed other hother hclose')
    · exact hclose (List.mem_singleton.mp hother ▸ hclose')

end Writers

/-! ### Events -/

namespace Connection

variable {c c' c'' : Connection}

/-- A closed connection stays closed, and it is no more and no less released. -/
structure Lasts (c c' : Connection) : Prop where
  closed : c.status = .closed → c'.status = .closed
  released : c'.released = c.released

theorem Changes.lasts {P : Exchange → Exchange → Prop} (h : Changes P c c')
    (hP : ∀ {x y}, P x y → x.status = .closed → y.status = .closed) : Lasts c c' :=
  ⟨hP h.exchange, h.released⟩

theorem isGone_of_held (h : c.released = false) : c.isGone = false := by
  simp [isGone, h]

theorem lasts_poll (hheld : c.released = false) (call : Call) (now : Nat) :
    Lasts c (call.poll c now).2 :=
  (polls_poll (isGone_of_held hheld) call now).changes.lasts Exchange.Evolves.closed

theorem lasts_drop (call : Call) (c : Connection) : Lasts c (call.drop c) :=
  (changes_drop call c).lasts fun h hclosed => h.keeps.status.trans hclosed

theorem lasts_of_first (hheld : c.released = false) {now : Nat} {r : Poll × Connection}
    (h : First c now r) : Lasts c r.2 := by
  cases h with
  | @failed ids c' c'' failure h h' =>
    have hboth : Changes (Exchange.Evolves peerWentAway ids) c c'' :=
      h.trans h' fun h h' => h.then_evolves (.letGo h')
    exact hboth.lasts Exchange.Evolves.closed
  | @polled c' call h hslots =>
    have hheld' : c'.released = false := h.released.trans hheld
    have hpoll := (polls_poll (isGone_of_held hheld') call now).changes
    exact (h.trans hpoll Exchange.Registers.then_evolves).lasts Exchange.Evolves.closed

/-- Whoever closes a connection finds it closed at once. -/
theorem status_close (c : Connection) (now : Nat) :
    (c.close now).2.status = .closed ∧ (c.close now).2.released = c.released := by
  unfold close Call.poll
  simp only
  split <;> exact ⟨rfl, rfl⟩

theorem lasts_begin (hheld : c.released = false) (errand : Errand) (now : Nat) :
    Lasts c (errand.begin c now).2 := by
  cases errand with
  | send event payload => exact lasts_of_first hheld (first_send c now event payload)
  | request event payload => exact lasts_of_first hheld (first_request c now event payload)
  | ask event payload limit => exact lasts_of_first hheld (first_ask c now event payload limit)
  | close => exact ⟨fun _ => (status_close c now).1, (status_close c now).2⟩

theorem lasts_readerStep (h : c.readerStep = some c') : Lasts c c' :=
  ⟨(evolves_readerStep h).1.closed, (evolves_readerStep h).2⟩

/-- What happens without a caller writes nothing, and does not concern the line. -/
theorem befall_line (c : Connection) (what : Incident) :
    c.outbound.unread = Writers.readAt c what ++ (c.befall what).outbound.unread ∧
      (c.befall what).turns = c.turns ∧ (c.befall what).nextTurn = c.nextTurn ∧
      Lasts c (c.befall what) := by
  cases what with
  | peerReads count => exact ⟨(List.take_append_drop count _).symm, rfl, rfl, id, rfl⟩
  | peerWrites bytes | peerEnds | peerAbandons | abort => exact ⟨rfl, rfl, rfl, id, rfl⟩
  | trap operation trap => cases operation <;> exact ⟨rfl, rfl, rfl, id, rfl⟩
  | reader =>
    cases hstep : c.readerStep with
    | none =>
      have hsame : c.befall .reader = c := by rw [befall, hstep, Option.getD_none]
      rw [hsame]
      exact ⟨rfl, rfl, rfl, id, rfl⟩
    | some c' =>
      have hnext : c.befall .reader = c' := by rw [befall, hstep, Option.getD_some]
      obtain ⟨r, -, hreads⟩ := reads_readerStep hstep
      obtain ⟨houtbound, hturns, hnumber⟩ := hreads.outbound
      rw [hnext, houtbound]
      exact ⟨rfl, hturns, hnumber, lasts_readerStep hstep⟩

end Connection

namespace Writers

open Connection

variable {w : Writers}

/-- Whatever happens without a caller. -/
theorem Inv.incident (h : w.Inv) (what : Incident) : (w.step (.incident what)).Inv := by
  obtain ⟨hunread, hturns, hnext, hlasts⟩ := befall_line w.connection what
  refine ⟨?_, ?_, ?_, ?_, h.order, h.bars, ?_, hlasts.released.trans h.held⟩
  · show (w.read ++ readAt w.connection what) ++ (w.connection.befall what).outbound.unread = _
    rw [List.append_assoc, ← hunread]
    exact h.written
  · show (w.connection.befall what).turns.Pairwise _
    rw [hturns]
    exact h.line
  · show ∀ turn ∈ (w.connection.befall what).turns, turn < (w.connection.befall what).nextTurn
    rw [hturns, hnext]
    exact h.lt
  · show ∀ caller ∈ w.callers,
      caller.Stands (w.connection.befall what).turns (w.connection.befall what).nextTurn
    rw [hturns, hnext]
    exact h.stands
  · intro caller hcaller hclose
    exact hlasts.closed (h.closed caller hcaller hclose)

/-- A closed connection stays closed whatever happens. -/
theorem Inv.lasts_step (h : w.Inv) (event : Event) :
    Lasts w.connection (w.step event).connection := by
  cases event with
  | begin now errand => exact lasts_begin h.held errand now
  | poll now i =>
    rcases step_poll_cases w now i with hsame | ⟨caller, call, -, -, hnext⟩
    · rw [hsame]
      exact ⟨id, rfl⟩
    · rw [hnext]
      exact lasts_poll h.held call now
  | drop i =>
    rcases step_drop_cases w i with hsame | ⟨caller, call, -, -, hnext⟩
    · rw [hsame]
      exact ⟨id, rfl⟩
    · rw [hnext]
      exact lasts_drop call w.connection
  | incident what => exact (befall_line w.connection what).2.2.2

theorem Inv.step (h : w.Inv) (event : Event) : (w.step event).Inv := by
  have hlasts := h.lasts_step event
  cases event with
  | begin now errand =>
    obtain ⟨more, harrives⟩ := arrives_of_asks h.line h.lt (asks_begin errand w.connection now)
    refine h.arrive harrives hlasts.closed ?_ hlasts.released
    rintro rfl
    exact (status_close w.connection now).1
  | poll now i =>
    rcases step_poll_cases w now i with hsame | ⟨caller, call, hi, hcall, hnext⟩
    · rwa [hsame]
    · have hstands := h.stands caller (List.mem_of_getElem? hi)
      obtain ⟨more, hadvances⟩ := advances_poll hstands hcall now h.line
      rw [hnext] at hlasts ⊢
      exact h.advance hi hadvances hlasts.closed hlasts.released
  | drop i =>
    rcases step_drop_cases w i with hsame | ⟨caller, call, hi, hcall, hnext⟩
    · rwa [hsame]
    · have hstands := h.stands caller (List.mem_of_getElem? hi)
      rw [hnext] at hlasts ⊢
      exact h.advance hi (advances_drop hstands hcall) hlasts.closed hlasts.released
  | incident what => exact h.incident what

theorem Inv.run (h : w.Inv) (events : List Event) : (w.run events).Inv := by
  induction events generalizing w with
  | nil => exact h
  | cons event events ih => exact ih (h.step event)

end Writers

end EnvelopeClient
