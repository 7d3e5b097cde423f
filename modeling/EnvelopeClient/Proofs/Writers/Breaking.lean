import EnvelopeClient.Proofs.Writers.Closing
import EnvelopeClient.Proofs.Writers.Failing

/-!
# Behind a message that breaks off

A message breaks off when a write fails behind its first bytes, or when its caller goes away. What
that does to the connection is told from the failure alone: one that says the peer is gone closes
the connection, and with any other, and without one, it stays as it is (`status_of_broken`). So
behind the first kind nobody who comes later writes (`refused_behind_fragment`); behind the others
the next message is written right behind the fragment (`written_behind_fragment`). Nobody at all
writes once the peer reads no more (`Mute`).
-/

namespace EnvelopeClient

/-- A caller has written a part of its message, and does not go on. -/
structure Caller.IsBroken (caller : Caller) : Prop where
  begun : caller.wrote ≠ []
  part : caller.wrote ≠ caller.errand.text
  ended : caller.call? = none

namespace Connection

variable {c : Connection} {caller : Caller} {call : Call} {failure : Failure} {turns : List Nat}
  {next : Nat}

/-- A message that breaks off closes the connection exactly if the failure says that the peer is
gone. -/
theorem status_of_broken (h : caller.Stands turns next) (hcall : caller.call? = some call)
    {now : Nat} (hbroken : (caller.polled c (call.poll c now)).IsBroken)
    (hfailed : (call.poll c now).1 = .failed failure) :
    (call.poll c now).2.status = if failure.isNotConnected then .closed else c.status := by
  rcases status_of_poll_failed hfailed with hwhole | hstatus
  · refine absurd ?_ hbroken.part
    rw [Caller.polled, hwhole]
    exact h.left call hcall
  · exact hstatus

/-- So does one that breaks off at its first poll. -/
theorem closed_of_begun {errand : Errand} {now : Nat}
    (hbroken : (Caller.begun errand c (errand.begin c now)).IsBroken)
    (hfailed : (errand.begin c now).1 = .failed failure) (hgone : failure.isNotConnected = true) :
    (errand.begin c now).2.status = .closed := by
  have hbegun := hbroken.begun
  have hpart := hbroken.part
  clear hbroken
  have hasks := asks_begin errand c now
  generalize errand.begin c now = r at *
  cases hasks with
  | refused failure' hwrote =>
    exact absurd hwrote.added hbegun
  | @polled c' call hturn hleft hopen hunread hturns hnext =>
    rcases status_of_poll_failed hfailed with hwhole | hstatus
    · refine absurd ?_ hpart
      rw [added, hunread, hleft] at hwhole
      exact hwhole
    · rw [hstatus, if_pos hgone]

end Connection

namespace Writers

open Connection

variable {w : Writers} {caller : Caller} {i : Nat}

/-- Behind a message that broke off because the peer was gone the connection is closed. -/
def Shut (w : Writers) : Prop :=
  ∀ caller ∈ w.callers, caller.IsBroken → ∀ failure, caller.poll = some (.failed failure) →
    failure.isNotConnected = true → w.connection.status = .closed

theorem Shut.step (h : w.Shut) (hinv : w.Inv) (event : Event) : (w.step event).Shut := by
  have hlasts := hinv.lasts_step event
  intro caller hcaller hbroken failure hfailed hgone
  -- whoever does not move has broken off before
  have hstays : caller ∈ w.callers → (w.step event).connection.status = .closed :=
    fun hold => hlasts.closed (h caller hold hbroken failure hfailed hgone)
  cases event with
  | begin now errand =>
    rcases List.mem_append.mp hcaller with hold | hnew
    · exact hstays hold
    · obtain rfl := List.mem_singleton.mp hnew
      exact closed_of_begun hbroken (Option.some.inj hfailed) hgone
  | poll now i =>
    rcases step_poll_cases w now i with hsame | ⟨old, call, hi, hcall, hnext⟩
    · rw [hsame] at hcaller
      exact hstays hcaller
    · rw [hnext] at hcaller ⊢
      rcases List.mem_or_eq_of_mem_set hcaller with hold | rfl
      · rw [hnext] at hstays
        exact hstays hold
      · have hstands := hinv.stands old (List.mem_of_getElem? hi)
        have hstatus := status_of_broken hstands hcall hbroken (Option.some.inj hfailed)
        rw [if_pos hgone] at hstatus
        exact hstatus
  | drop i =>
    rcases step_drop_cases w i with hsame | ⟨old, call, hi, hcall, hnext⟩
    · rw [hsame] at hcaller
      exact hstays hcaller
    · rw [hnext] at hcaller
      rcases List.mem_or_eq_of_mem_set hcaller with hold | rfl
      · exact hstays hold
      · cases hfailed
  | incident what => exact hstays hcaller

theorem Shut.run (h : w.Shut) (hinv : w.Inv) (events : List Event) : (w.run events).Shut := by
  induction events generalizing w with
  | nil => exact h
  | cons event events ih => exact ih (h.step hinv event) (hinv.step event)

/-! ### Once nothing arrives -/

/-- Nothing has been written since, by nobody, and nothing will arrive. -/
structure Mute (w w' : Writers) : Prop where
  gone : w'.connection.outbound.IsGone
  written : w'.written = w.written
  wrote : ∀ (i : Nat) (caller : Caller), w'.callers[i]? = some caller →
    caller.wrote = (w.callers[i]?.map (·.wrote)).getD []

theorem Mute.refl (hgone : w.connection.outbound.IsGone) : w.Mute w where
  gone := hgone
  written := rfl
  wrote i caller hi := by rw [hi]; rfl

theorem Mute.trans {w' w'' : Writers} (h : w.Mute w') (h' : w'.Mute w'')
    (hkept : w'.callers.length ≥ w.callers.length) : w.Mute w'' where
  gone := h'.gone
  written := h'.written.trans h.written
  wrote i caller hi := by
    rw [h'.wrote i caller hi]
    cases hbefore : w'.callers[i]? with
    | some before => exact h.wrote i before hbefore
    | none =>
      have hnone : w.callers[i]? = none := by
        rw [List.getElem?_eq_none_iff] at hbefore ⊢
        omega
      rw [hnone]

/-- A caller moves and writes nothing. -/
theorem mute_set {c' : Connection} {caller' : Caller} (hmute : Connection.Mute w.connection c')
    (hi : w.callers[i]? = some caller) (hwrote : caller'.wrote = caller.wrote) :
    w.Mute { w with connection := c', callers := w.callers.set i caller' } := by
  refine ⟨hmute.gone, ?_, ?_⟩
  · show w.read ++ c'.outbound.unread = _
    rw [hmute.unread]
    rfl
  · intro j other hj
    by_cases heq : i = j
    · subst heq
      rw [List.getElem?_set_self (List.getElem?_eq_some_iff.mp hi).1] at hj
      cases hj
      rw [hi, hwrote]
      rfl
    · rw [List.getElem?_set_ne heq] at hj
      rw [hj]
      rfl

theorem mute_step (hgone : w.connection.outbound.IsGone) (event : Event) :
    w.Mute (w.step event) := by
  cases event with
  | begin now errand =>
    have hmute := mute_begin hgone errand now
    refine ⟨hmute.gone, ?_, ?_⟩
    · show w.read ++ (errand.begin w.connection now).2.outbound.unread = _
      rw [hmute.unread]
      rfl
    · intro i caller hi
      rw [show (w.step (.begin now errand)).callers = w.callers ++ _ from rfl,
        List.getElem?_append] at hi
      split at hi
      · rw [hi]
        rfl
      · next hlate =>
        have hcaller := List.mem_singleton.mp (List.mem_of_getElem? hi)
        rw [List.getElem?_eq_none (Nat.le_of_not_lt hlate), hcaller]
        exact hmute.added
  | poll now i =>
    rcases step_poll_cases w now i with hsame | ⟨caller, call, hi, hcall, hnext⟩
    · rw [hsame]
      exact .refl hgone
    · have hmute := mute_poll hgone call now
      rw [hnext]
      exact mute_set hmute hi (by rw [Caller.polled, hmute.added, List.append_nil])
  | drop i =>
    rcases step_drop_cases w i with hsame | ⟨caller, call, hi, hcall, hnext⟩
    · rw [hsame]
      exact .refl hgone
    · rw [hnext]
      exact mute_set (.of_outbound hgone (outbound_drop call w.connection)) hi rfl
  | incident what =>
    obtain ⟨hunread, -⟩ := befall_line w.connection what
    refine ⟨isGone_befall hgone what, ?_, ?_⟩
    · show (w.read ++ readAt w.connection what) ++ (w.connection.befall what).outbound.unread = _
      rw [List.append_assoc, ← hunread]
      rfl
    · intro i caller hi
      rw [show w.callers[i]? = some caller from hi]
      rfl

theorem length_le_step (w : Writers) (event : Event) :
    w.callers.length ≤ (w.step event).callers.length := by
  rcases length_step w event with hsame | ⟨now, errand, rfl⟩
  · exact Nat.le_of_eq hsame.symm
  · simp [Writers.step]

/-- A closed connection stays closed. -/
theorem Inv.closed_run (h : w.Inv) (hclosed : w.connection.status = .closed) (events : List Event) :
    (w.run events).connection.status = .closed := by
  induction events generalizing w with
  | nil => exact hclosed
  | cons event events ih => exact ih (h.step event) ((h.lasts_step event).closed hclosed)

/-- Once nothing arrives any more, nothing is written any more. -/
theorem mute_run (hgone : w.connection.outbound.IsGone) (events : List Event) :
    w.Mute (w.run events) := by
  induction events generalizing w with
  | nil => exact .refl hgone
  | cons event events ih =>
    have hstep := mute_step hgone event
    exact hstep.trans (ih hstep.gone) (length_le_step w event)

/-! ### Every run -/

/-- **Nobody writes on behind a message that broke off because the peer was gone.** Whatever failure
a message breaks off with, the connection closes exactly if the failure says that the peer is gone,
and it stays as it is if the caller goes away. Once a message has broken off with such a failure the
connection stays closed, and whoever comes later is refused and writes nothing. Once the peer reads
no more nothing is written any more, and no message succeeds that was not whole by then, in line or
not. -/
theorem refused_behind_fragment (peer : String) (capacity : Option Nat)
    (events later : List Event) :
    let w := (start peer capacity).run events
    let w' := w.run later
    (∀ (i now : Nat) (caller : Caller) (call : Call), w.callers[i]? = some caller →
      caller.call? = some call →
        (w.step (.drop i)).connection.status = w.connection.status ∧
        ∀ (caller' : Caller) (failure : Failure),
          (w.step (.poll now i)).callers[i]? = some caller' → caller'.IsBroken →
          caller'.poll = some (.failed failure) →
            (w.step (.poll now i)).connection.status =
              if failure.isNotConnected then .closed else w.connection.status) ∧
    (∀ broken ∈ w.callers, broken.IsBroken → ∀ failure, broken.poll = some (.failed failure) →
      failure.isNotConnected = true →
        w'.connection.status = .closed ∧
        ∀ (i : Nat) (caller : Caller) (refusal : Failure), w'.callers[i]? = some caller →
          w.callers.length ≤ i → caller.errand.refusal = some refusal →
            caller.wrote = [] ∧ caller.poll = some (.failed refusal)) ∧
    (w.connection.outbound.IsGone →
      w'.written = w.written ∧
      ∀ (i : Nat) (caller : Caller), w'.callers[i]? = some caller → caller.errand.text ≠ [] →
        (∀ before, w.callers[i]? = some before → before.wrote ≠ before.errand.text) →
          caller.succeeded = false) := by
  intro w w'
  have hinv : w.Inv := (inv_start peer capacity).run events
  have hshut : w.Shut :=
    Shut.run (fun caller hcaller => absurd hcaller List.not_mem_nil) (inv_start peer capacity)
      events
  refine ⟨?_, ?_, ?_⟩
  · intro i now caller call hi hcall
    have hstands := hinv.stands caller (List.mem_of_getElem? hi)
    refine ⟨?_, ?_⟩
    · have hdrop : (w.step (.drop i)).connection = call.drop w.connection := by
        simp only [step, hi, hcall]
      rw [hdrop]
      exact (changes_drop call w.connection).exchange.keeps.status
    · intro caller' failure hi' hbroken hfailed
      rw [step_poll hi hcall] at hi' ⊢
      rw [List.getElem?_set_self (List.getElem?_eq_some_iff.mp hi).1] at hi'
      cases hi'
      exact status_of_broken hstands hcall hbroken (Option.some.inj hfailed)
  · intro broken hbroken hfragment failure hfailed hgone
    have hclosed := hshut broken hbroken hfragment failure hfailed hgone
    refine ⟨hinv.closed_run hclosed later, ?_⟩
    intro i caller refusal hi hlate hrefusal
    exact refused_run hinv hclosed later hi hlate hrefusal
  · intro hgone
    have hmute : w.Mute w' := mute_run hgone later
    refine ⟨hmute.written, ?_⟩
    intro i caller hi htext hpart
    cases hsucceeded : caller.succeeded with
    | false => rfl
    | true =>
      have hwhole := ((hinv.run later).stands caller (List.mem_of_getElem? hi)).whole hsucceeded
      have hwrote := hmute.wrote i caller hi
      cases hbefore : w.callers[i]? with
      | none =>
        rw [hbefore, hwhole] at hwrote
        exact absurd hwrote htext
      | some before =>
        obtain ⟨caller', hcaller', hbecomes⟩ := exists_run hbefore later
        obtain rfl : caller' = caller := Option.some.inj (hcaller'.symm.trans hi)
        rw [hbefore, hwhole, hbecomes.errand] at hwrote
        exact absurd hwrote.symm (hpart before hbefore)

/-- A message that does not fit into the pipe and another that queues behind it. Then the peer stops
reading, which the first one finds. -/
def abandoned : List Event :=
  [.begin 0 (.send "a" (.int 1)), .begin 0 (.send "b" (.int 2)), .incident .peerAbandons,
    .poll 0 0]

/-- A message comes then, and the one in line is polled. -/
theorem refused_behind_fragment_each :
    let w := (start "peer" (some 11)).run abandoned
    let w' := w.run [.begin 0 (.send "c" (.int 3)), .poll 0 1]
    (w.step (.drop 1)).connection.status = w.connection.status ∧
    (∃ caller, w'.callers[2]? = some caller ∧ caller.wrote = [] ∧
      caller.poll = some (.failed (.notConnected "cannot send 'c' in state Closed"))) ∧
    w'.written = w.written ∧
    ∃ caller, w'.callers[1]? = some caller ∧ caller.succeeded = false := by
  intro w w'
  obtain ⟨hstatus, hlate, hgone⟩ := refused_behind_fragment "peer" (some 11) abandoned
    [.begin 0 (.send "c" (.int 3)), .poll 0 1]
  have hbroken : ∃ caller ∈ w.callers, caller.IsBroken ∧ ∃ failure,
      caller.poll = some (.failed failure) ∧ failure.isNotConnected = true :=
    ⟨_, List.mem_of_getElem? (i := 0) rfl, ⟨by decide +kernel, by decide +kernel, rfl⟩, _, rfl, rfl⟩
  obtain ⟨caller, hcaller, hfragment, failure, hfailed, hnot⟩ := hbroken
  obtain ⟨-, hrefused⟩ := hlate caller hcaller hfragment failure hfailed hnot
  obtain ⟨hwritten, hfails⟩ := hgone (.inr rfl)
  refine ⟨(hstatus 1 0 _ _ rfl rfl).1, ⟨_, rfl, hrefused 2 _ _ rfl (by decide +kernel) rfl⟩,
    hwritten, _, rfl, hfails 1 _ rfl (by decide +kernel) ?_⟩
  intro before hbefore
  cases hbefore
  decide +kernel

/-- A message that does not fit into the pipe. -/
def fragment : List Event := [.begin 0 (.send "a" (.int 1))]

/-- The peer reads what there is of it, and another message is written. -/
def following : List Event :=
  [.incident (.peerReads 11), .begin 0 (.send "b" (.int 2)), .incident (.peerReads 11), .poll 0 1]

/-- If its caller goes away, or writing fails in another way, the next message succeeds. -/
theorem written_behind_fragment :
    (¬∀ (peer : String) (capacity : Option Nat) (events later : List Event),
      let w := (start peer capacity).run events
      ∀ broken ∈ w.callers, broken.IsBroken → broken.poll = none →
        ∀ (i : Nat) (caller : Caller), (w.run later).callers[i]? = some caller →
          w.callers.length ≤ i → caller.errand.text ≠ [] → caller.succeeded = false) ∧
    ¬∀ (peer : String) (capacity : Option Nat) (events later : List Event),
      let w := (start peer capacity).run events
      ∀ broken ∈ w.callers, broken.IsBroken → broken.poll ≠ none →
        ∀ (i : Nat) (caller : Caller), (w.run later).callers[i]? = some caller →
          w.callers.length ≤ i → caller.errand.text ≠ [] → caller.succeeded = false := by
  constructor
  · intro h
    have hfails := h "peer" (some 11) (fragment ++ [.drop 0]) following _
      (List.mem_of_getElem? (i := 0) rfl) ⟨by decide +kernel, by decide +kernel, rfl⟩ rfl 1 _ rfl
      (by decide +kernel) (by decide +kernel)
    have hdone : true = false := hfails
    cases hdone
  · intro h
    have hfails := h "peer" (some 11)
      (fragment ++ [.incident (.trap .write (.fails ⟨.other, "x"⟩)), .poll 0 0]) following _
      (List.mem_of_getElem? (i := 0) rfl) ⟨by decide +kernel, by decide +kernel, rfl⟩
      (by rintro ⟨⟩) 1 _ rfl (by decide +kernel) (by decide +kernel)
    have hdone : true = false := hfails
    cases hdone

end Writers

end EnvelopeClient
