import EnvelopeClient.Proofs.Connection.Waiting

/-!
# How an exchange evolves

Whatever is done to a connection, its exchange changes in one of few ways. `Exchange.Evolves` lists
them: waiters are registered, then at most one message is delivered or the connection closes for a
given reason, then waiters are let go. What waiters may rely on is proved here once, from that list:
outcomes stay (`Evolves.outcome?_eq`), a closed exchange gives nobody anything any more
(`Evolves.keeps_of_closed`), and the close that comes first fails everyone who waits, for its own
reason (`Evolves.outcome?_of_close`).
-/

namespace EnvelopeClient.Exchange

open Json

variable {x y z : Exchange}

/-! ### Who is held -/

theorem lt_of_isHeld {id : Nat} (h : x.isHeld id = true) : id < x.mailboxes.length := by
  rcases Nat.lt_or_ge id x.mailboxes.length with hlt | hge
  · exact hlt
  · rw [isHeld, List.getElem?_eq_none hge] at h
    cases h

/-- A waiter that is held waits until it is given something. -/
theorem isWaiting_eq (x : Exchange) (id : Nat) :
    x.isWaiting id = (x.isHeld id && (x.outcome? id).isNone) := by
  rw [isWaiting, isHeld, outcome?]
  cases x.mailboxes[id]? <;> rfl

theorem isHeld_answered (registry : Registry) (id other : Nat) (reply : Reply) :
    (x.withMailbox registry id (answered reply)).isHeld other = x.isHeld other := by
  rw [isHeld, isHeld, withMailbox, List.getElem?_modify, Option.map_eq_map, Option.any_map]
  congr 1
  funext box
  by_cases h : id = other <;> simp [h, answered]

theorem isHeld_released (registry : Registry) (id other : Nat) :
    (x.withMailbox registry id released).isHeld other = (x.isHeld other && decide (other ≠ id)) := by
  rw [isHeld, isHeld, withMailbox, List.getElem?_modify, Option.map_eq_map, Option.any_map]
  by_cases h : id = other
  · subst h
    simp [released]
  · simp [h, Ne.symm h]

theorem isHeld_extended (registry : Registry) (event : String) (id : Nat) :
    (x.extended registry event).isHeld id =
      if id = x.mailboxes.length then true else x.isHeld id := by
  rw [isHeld, getElem?_extended]
  split <;> rfl

theorem isHeld_close (h : x.Sound) (reason : String) (id : Nat) :
    (x.close reason).isHeld id = x.isHeld id := by
  rw [isHeld, isHeld, mailboxes_close h, List.getElem?_map, Option.any_map]
  congr 1
  funext box
  simp only [failed]
  split <;> rfl

theorem isHeld_deliver (h : x.Sound) (e : Envelope) (id : Nat) :
    (x.deliver e).2.isHeld id = x.isHeld id := by
  cases hq : x.waitingFor e.event with
  | nil => rw [deliver_of_nil h hq]
  | cons first rest =>
    rw [deliver_of_cons h hq]
    exact isHeld_answered _ _ _ _

/-! ### Nothing but letting go -/

/-- No waiter was given anything, and none came. -/
structure Keeps (x y : Exchange) : Prop where
  status : y.status = x.status
  length : y.mailboxes.length = x.mailboxes.length
  eventOf : ∀ id, y.eventOf id = x.eventOf id
  outcome? : ∀ id, y.outcome? id = x.outcome? id
  empty : x.registry.queues = [] → y.registry.queues = []

theorem Keeps.refl (x : Exchange) : x.Keeps x :=
  ⟨rfl, rfl, fun _ => rfl, fun _ => rfl, id⟩

theorem Keeps.trans (h : x.Keeps y) (h' : y.Keeps z) : x.Keeps z where
  status := h'.status.trans h.status
  length := h'.length.trans h.length
  eventOf id := (h'.eventOf id).trans (h.eventOf id)
  outcome? id := (h'.outcome? id).trans (h.outcome? id)
  empty hempty := h'.empty (h.empty hempty)

theorem keeps_released (registry : Registry) (hstatus : registry.status = x.status)
    (hempty : x.registry.queues = [] → registry.queues = []) (id : Nat) :
    x.Keeps (x.withMailbox registry id released) where
  status := hstatus
  length := by simp [withMailbox]
  eventOf other := eventOf_withMailbox event_released _ _ _
  outcome? other := by
    rw [outcome?_withMailbox]
    split
    · next heq =>
      subst heq
      rfl
    · rfl
  empty := hempty

theorem keeps_cancel (x : Exchange) (id : Nat) : x.Keeps (x.cancel id) := by
  refine keeps_released (x.registry.cancel (x.eventOf id) id) rfl ?_ id
  intro hempty
  simp [Registry.cancel, Registry.queue, hempty, Registry.setQueue]

theorem keeps_settle (x : Exchange) (id : Nat) : x.Keeps (x.settle id) :=
  keeps_released x.registry rfl (fun hempty => hempty) id

/-- Some of the waiters `ids` are dropped, or done with what they were given. -/
inductive LetsGo (ids : List Nat) : Exchange → Exchange → Prop where
  | refl (x : Exchange) : LetsGo ids x x
  | cancel {x y : Exchange} {id : Nat} (hid : id ∈ ids) (h : LetsGo ids (x.cancel id) y) :
      LetsGo ids x y
  | settle {x y : Exchange} {id : Nat} (hid : id ∈ ids) (hdone : x.isWaiting id = false)
      (h : LetsGo ids (x.settle id) y) : LetsGo ids x y

variable {ids ids' : List Nat} {reason : String}

theorem LetsGo.trans (h : LetsGo ids x y) (h' : LetsGo ids y z) : LetsGo ids x z := by
  induction h with
  | refl x => exact h'
  | cancel hid _ ih => exact .cancel hid (ih h')
  | settle hid hdone _ ih => exact .settle hid hdone (ih h')

theorem LetsGo.mono (h : LetsGo ids x y) (hids : ids ⊆ ids') : LetsGo ids' x y := by
  induction h with
  | refl x => exact .refl x
  | cancel hid _ ih => exact .cancel (hids hid) ih
  | settle hid hdone _ ih => exact .settle (hids hid) hdone ih

theorem LetsGo.keeps (h : LetsGo ids x y) : x.Keeps y := by
  induction h with
  | refl x => exact .refl x
  | @cancel x _ id _ _ ih => exact (keeps_cancel x id).trans ih
  | @settle x _ id _ _ _ ih => exact (keeps_settle x id).trans ih

theorem LetsGo.sound (h : LetsGo ids x y) (hx : x.Sound) : y.Sound := by
  induction h with
  | refl x => exact hx
  | cancel _ _ ih => exact ih (hx.cancel _)
  | settle _ hdone _ ih => exact ih (hx.settle hdone)

/-- Nobody else is let go. -/
theorem LetsGo.isHeld_eq (h : LetsGo ids x y) {id : Nat} (hid : id ∉ ids) :
    y.isHeld id = x.isHeld id := by
  induction h with
  | refl x => rfl
  | @cancel x _ other hother _ ih =>
    have hne : id ≠ other := by
      rintro rfl
      exact hid hother
    rw [ih, cancel_eq, isHeld_released]
    simp [hne]
  | @settle x _ other hother _ _ ih =>
    have hne : id ≠ other := by
      rintro rfl
      exact hid hother
    rw [ih, settle_eq, isHeld_released]
    simp [hne]

/-! ### Everything that can happen -/

/-- All that one move can do to an exchange. A close is for `reason`, and only waiters among `ids`
are let go. -/
inductive Evolves (reason : String) (ids : List Nat) : Exchange → Exchange → Prop where
  | letGo {x y : Exchange} (h : LetsGo ids x y) : Evolves reason ids x y
  | deliver {x y : Exchange} (e : Envelope) (h : LetsGo ids (x.deliver e).2 y) :
      Evolves reason ids x y
  | close {x y : Exchange} (h : LetsGo ids (x.close reason) y) : Evolves reason ids x y
  | register {x y z : Exchange} {event : String} {id : Nat}
      (hregister : x.register event = .ok (id, y)) (h : Evolves reason ids y z) :
      Evolves reason ids x z

theorem Evolves.refl (x : Exchange) : Evolves reason ids x x := .letGo (.refl x)

theorem Evolves.then_letGo (h : Evolves reason ids x y) (h' : LetsGo ids y z) :
    Evolves reason ids x z := by
  induction h with
  | letGo h => exact .letGo (h.trans h')
  | deliver e h => exact .deliver e (h.trans h')
  | close h => exact .close (h.trans h')
  | register hregister _ ih => exact .register hregister (ih h')

theorem Evolves.mono (h : Evolves reason ids x y) (hids : ids ⊆ ids') :
    Evolves reason ids' x y := by
  induction h with
  | letGo h => exact .letGo (h.mono hids)
  | deliver e h => exact .deliver e (h.mono hids)
  | close h => exact .close (h.mono hids)
  | register hregister _ ih => exact .register hregister ih

theorem Evolves.sound (h : Evolves reason ids x y) (hx : x.Sound) : y.Sound := by
  induction h with
  | letGo h => exact h.sound hx
  | deliver e h => exact h.sound (hx.deliver e)
  | close h => exact h.sound (hx.close reason)
  | register hregister _ ih => exact ih (hx.register hregister)

theorem length_deliver (h : x.Sound) (e : Envelope) :
    (x.deliver e).2.mailboxes.length = x.mailboxes.length := by
  cases hq : x.waitingFor e.event with
  | nil => rw [deliver_of_nil h hq]
  | cons id rest =>
    rw [deliver_of_cons h hq]
    simp [withMailbox]

theorem eventOf_deliver (h : x.Sound) (e : Envelope) (id : Nat) :
    (x.deliver e).2.eventOf id = x.eventOf id := by
  cases hq : x.waitingFor e.event with
  | nil => rw [deliver_of_nil h hq]
  | cons first rest =>
    rw [deliver_of_cons h hq]
    exact eventOf_withMailbox (event_answered _) _ _ _

/-- A message is given to one who waits for it; all others keep what there is. -/
theorem outcome?_deliver (h : x.Sound) (e : Envelope) (id : Nat) :
    (x.deliver e).2.outcome? id = x.outcome? id ∨
      x.isWaiting id = true ∧ x.eventOf id = e.event ∧
        (x.deliver e).2.outcome? id = some (.ok e.data) := by
  cases hq : x.waitingFor e.event with
  | nil => exact .inl (by rw [deliver_of_nil h hq])
  | cons first rest =>
    rw [deliver_of_cons h hq, outcome?_withMailbox]
    split
    · next heq =>
      subst heq
      obtain ⟨hwaiting, hevent⟩ := mem_waitingFor.mp (hq ▸ List.mem_cons_self)
      refine .inr ⟨hwaiting, hevent, ?_⟩
      rw [List.getElem?_eq_getElem (lt_of_isWaiting hwaiting)]
      rfl
    · exact .inl rfl

section

variable {event : String} {id : Nat}

theorem length_register (h : x.Sound) (hy : x.register event = .ok (id, y)) :
    y.mailboxes.length = x.mailboxes.length + 1 := by
  obtain ⟨-, -, registry, rfl, -⟩ := register_cases h hy
  simp [extended]

theorem outcome?_register (h : x.Sound) (hy : x.register event = .ok (id, y)) (other : Nat) :
    y.outcome? other = x.outcome? other := by
  obtain ⟨-, -, registry, rfl, -⟩ := register_cases h hy
  exact outcome?_extended _ _ _

/-- The waiters there were are of the same tags. -/
theorem eventOf_register (h : x.Sound) (hy : x.register event = .ok (id, y)) {other : Nat}
    (hlt : other < x.mailboxes.length) : y.eventOf other = x.eventOf other := by
  obtain ⟨-, -, registry, rfl, -⟩ := register_cases h hy
  rw [eventOf_extended, if_neg (Nat.ne_of_lt hlt)]

/-- The new waiter is held, and so are those that were. -/
theorem isHeld_register (h : x.Sound) (hy : x.register event = .ok (id, y)) (other : Nat) :
    y.isHeld other = if other = id then true else x.isHeld other := by
  obtain ⟨-, rfl, registry, rfl, -⟩ := register_cases h hy
  exact isHeld_extended _ _ _

end

/-- What a waiter was given, it keeps. -/
theorem Evolves.outcome?_eq (h : Evolves reason ids x y) (hx : x.Sound) {id : Nat} {r : Reply}
    (hr : x.outcome? id = some r) : y.outcome? id = some r := by
  have hdone : x.isWaiting id = false := by simp [isWaiting_eq, hr]
  induction h with
  | letGo h => rwa [h.keeps.outcome?]
  | deliver e h =>
    rw [h.keeps.outcome?]
    rcases outcome?_deliver hx e id with hsame | ⟨hwaiting, -⟩
    · rwa [hsame]
    · rw [hdone] at hwaiting
      cases hwaiting
  | close h =>
    rw [h.keeps.outcome?, outcome?_close hx, hdone]
    exact hr
  | register hregister _ ih =>
    have hr' := (outcome?_register hx hregister id).trans hr
    exact ih (hx.register hregister) hr' (by simp [isWaiting_eq, hr'])

/-- Nobody is let go but waiters among `ids`. -/
theorem Evolves.isHeld_eq (h : Evolves reason ids x y) (hx : x.Sound) {id : Nat} (hid : id ∉ ids)
    (hlt : id < x.mailboxes.length) : y.isHeld id = x.isHeld id := by
  induction h with
  | letGo h => exact h.isHeld_eq hid
  | deliver e h => rw [h.isHeld_eq hid, isHeld_deliver hx]
  | close h => rw [h.isHeld_eq hid, isHeld_close hx]
  | @register x y z event first hregister _ ih =>
    have hnew : first = x.mailboxes.length := (register_cases hx hregister).2.1
    have hlt' : id < y.mailboxes.length := by
      rw [length_register hx hregister]
      omega
    rw [ih (hx.register hregister) hlt', isHeld_register hx hregister, if_neg (by omega)]

/-- Every waiter keeps its tag. -/
theorem Evolves.eventOf_eq (h : Evolves reason ids x y) (hx : x.Sound) {id : Nat}
    (hlt : id < x.mailboxes.length) : y.eventOf id = x.eventOf id := by
  induction h with
  | letGo h => exact h.keeps.eventOf id
  | deliver e h => rw [h.keeps.eventOf, eventOf_deliver hx]
  | close h => rw [h.keeps.eventOf, eventOf_close hx]
  | @register x y z event first hregister _ ih =>
    have hlt' : id < y.mailboxes.length := by
      rw [length_register hx hregister]
      omega
    rw [ih (hx.register hregister) hlt', eventOf_register hx hregister hlt]

theorem Evolves.length_le (h : Evolves reason ids x y) (hx : x.Sound) :
    x.mailboxes.length ≤ y.mailboxes.length := by
  induction h with
  | letGo h => exact Nat.le_of_eq h.keeps.length.symm
  | deliver e h => exact Nat.le_of_eq (h.keeps.length.trans (length_deliver hx e)).symm
  | close h =>
    exact Nat.le_of_eq (by rw [h.keeps.length, mailboxes_close hx, List.length_map])
  | register hregister _ ih =>
    have hle := ih (hx.register hregister)
    rw [length_register hx hregister] at hle
    omega

/-! ### Closing -/

/-- A closed exchange stays as it is, but for waiters that are let go. -/
theorem Evolves.keeps_of_closed (h : Evolves reason ids x y) (hx : x.Sound)
    (hclosed : x.status = .closed) : x.Keeps y := by
  -- nobody waits, so there is nobody to deliver to and nobody to fail
  have hwaiting := isWaiting_of_closed hx hclosed
  cases h with
  | letGo h => exact h.keeps
  | deliver e h =>
    have hnil : x.waitingFor e.event = [] := by
      rw [waitingFor, List.filter_eq_nil_iff]
      simp [hwaiting]
    rw [deliver_of_nil hx hnil] at h
    exact h.keeps
  | close h =>
    have hkeeps : x.Keeps (x.close reason) := by
      refine ⟨hclosed.symm, ?_, eventOf_close hx reason, ?_, fun _ => rfl⟩
      · rw [mailboxes_close hx, List.length_map]
      · intro id
        rw [outcome?_close hx, hwaiting]
        rfl
    exact hkeeps.trans h.keeps
  | register hregister =>
    have hopen := (register_cases hx hregister).1
    rw [hclosed] at hopen
    cases hopen

theorem status_deliver (x : Exchange) (e : Envelope) : (x.deliver e).2.status = x.status := by
  rw [deliver]
  cases x.registry.queues.lookup e.event with
  | none => rfl
  | some queue => rfl

/-- If an exchange closes, everyone who waits is told so, with the reason of this close. -/
theorem Evolves.outcome?_of_close (h : Evolves reason ids x y) (hx : x.Sound)
    (hopen : x.status ≠ .closed) (hclosed : y.status = .closed) {id : Nat}
    (hid : x.isWaiting id = true) :
    y.outcome? id = some (.error (closedFailure (x.eventOf id) reason)) := by
  -- of all that can happen, only a close closes
  induction h with
  | letGo h => exact absurd (h.keeps.status.symm.trans hclosed) hopen
  | deliver e h =>
    rw [h.keeps.status, status_deliver] at hclosed
    exact absurd hclosed hopen
  | close h => rw [h.keeps.outcome?, outcome?_close hx, if_pos hid]
  | @register x y z event first hregister _ ih =>
    have hid' : y.isWaiting id = true := by
      rw [isWaiting_eq, Bool.and_eq_true] at hid ⊢
      rw [outcome?_register hx hregister, isHeld_register hx hregister, hid.1, ite_self]
      exact ⟨rfl, hid.2⟩
    have hopen' : y.status ≠ .closed := by
      intro heq
      obtain ⟨-, -, registry, rfl, hstatus⟩ := register_cases hx hregister
      exact hopen (hstatus.symm.trans heq)
    rw [ih (hx.register hregister) hopen' hclosed hid',
      eventOf_register hx hregister (lt_of_isWaiting hid)]

/-- Only an open exchange registers, and stays open. -/
theorem status_register {event : String} {id : Nat} (h : x.register event = .ok (id, y)) :
    x.status = .open ∧ y.status = .open := by
  unfold register Registry.register at h
  split at h
  · next registry hregister =>
    cases h
    split at hregister
    · next hopen =>
      cases hregister
      exact ⟨hopen, hopen⟩
    · cases hregister
  · cases h

/-- No exchange leaves the closed state. -/
theorem Evolves.closed (h : Evolves reason ids x y) (hclosed : x.status = .closed) :
    y.status = .closed := by
  cases h with
  | letGo h => exact h.keeps.status.trans hclosed
  | @deliver x y e h =>
    rw [h.keeps.status, status_deliver, hclosed]
  | close h => exact h.keeps.status
  | register hregister =>
    rw [(status_register hregister).1] at hclosed
    cases hclosed

/-! ### What comes from outside -/

/-- What a step of the reader does to an exchange: nothing, or a message is delivered, or it is
closed. -/
inductive Takes (reason : String) (x : Exchange) : Exchange → Prop where
  | nothing : Takes reason x x
  | message (e : Envelope) : Takes reason x (x.deliver e).2
  | close : Takes reason x (x.close reason)

theorem Takes.evolves (h : Takes reason x y) : Evolves reason ids x y := by
  cases h with
  | nothing => exact .refl x
  | message e => exact .deliver e (.refl _)
  | close => exact .close (.refl _)

/-! ### Nobody in any queue -/

theorem pending_of_empty (hempty : x.registry.queues = []) : x.pending = 0 := by
  simp [pending, Registry.pending, hempty]

/-- A message is dropped. -/
theorem deliver_of_empty (hempty : x.registry.queues = []) (e : Envelope) :
    x.deliver e = (false, x) := by
  obtain ⟨⟨status, nextId, queues⟩, mailboxes⟩ := x
  obtain rfl : queues = [] := hempty
  rfl

/-- A close fails nobody, and changes nothing if it is not the first. -/
theorem close_of_empty (hempty : x.registry.queues = []) (hclosed : x.status = .closed)
    (reason : String) : x.registry.close.1 = [] ∧ x.close reason = x := by
  obtain ⟨⟨status, nextId, queues⟩, mailboxes⟩ := x
  obtain rfl : queues = [] := hempty
  obtain rfl : status = .closed := hclosed
  exact ⟨rfl, rfl⟩

/-! ### What waiters are given -/

/-- Waiters are given the data of a message or the failure of a close, and nothing else. -/
def Proper (x : Exchange) : Prop :=
  ∀ id r, x.outcome? id = some r →
    (∃ v, r = .ok v) ∨ ∃ reason, r = .error (closedFailure (x.eventOf id) reason)

theorem proper_opened : opened.Proper := by
  intro id r hr
  cases hr

theorem Keeps.proper (h : x.Keeps y) (hx : x.Proper) : y.Proper := by
  intro id r hr
  rw [h.outcome?] at hr
  rw [h.eventOf]
  exact hx id r hr

theorem Evolves.proper (h : Evolves reason ids x y) (hx : x.Sound) (hproper : x.Proper) :
    y.Proper := by
  induction h with
  | letGo h => exact h.keeps.proper hproper
  | @deliver x y e h =>
    refine h.keeps.proper ?_
    intro id r hr
    rw [eventOf_deliver hx]
    rcases outcome?_deliver hx e id with hsame | ⟨-, -, hgiven⟩
    · exact hproper id r (hsame.symm.trans hr)
    · rw [hgiven] at hr
      exact .inl ⟨e.data, (Option.some.inj hr).symm⟩
  | @close x y h =>
    refine h.keeps.proper ?_
    intro id r hr
    rw [eventOf_close hx]
    rw [outcome?_close hx] at hr
    split at hr
    · exact .inr ⟨reason, (Option.some.inj hr).symm⟩
    · exact hproper id r hr
  | @register x y z event id hregister _ ih =>
    refine ih (hx.register hregister) ?_
    intro other r hr
    rw [outcome?_register hx hregister] at hr
    have hlt : other < x.mailboxes.length := by
      rcases Nat.lt_or_ge other x.mailboxes.length with hlt | hge
      · exact hlt
      · rw [outcome?_of_length_le hge] at hr
        cases hr
    rw [eventOf_register hx hregister hlt]
    exact hproper other r hr

/-- Nobody fails but by a close. -/
def FailsClosed (x : Exchange) : Prop :=
  ∀ id failure, x.outcome? id = some (.error failure) → x.status = .closed

theorem failsClosed_opened : opened.FailsClosed := by
  intro id failure hgiven
  cases hgiven

theorem Evolves.failsClosed (h : Evolves reason ids x y) (hx : x.Sound) (hclosed : x.FailsClosed) :
    y.FailsClosed := by
  induction h with
  | letGo h =>
    intro id failure hfailed
    rw [h.keeps.outcome?] at hfailed
    exact h.keeps.status.trans (hclosed id failure hfailed)
  | deliver e h =>
    intro id failure hfailed
    rw [h.keeps.outcome?] at hfailed
    rw [h.keeps.status, status_deliver]
    rcases outcome?_deliver hx e id with hsame | ⟨-, -, hgiven⟩
    · exact hclosed id failure (hsame.symm.trans hfailed)
    · rw [hgiven] at hfailed
      cases hfailed
  | close h => exact fun _ _ _ => h.keeps.status
  | register hregister _ ih =>
    refine ih (hx.register hregister) ?_
    intro id failure hfailed
    rw [outcome?_register hx hregister] at hfailed
    have hopen := (status_register hregister).1
    rw [hclosed id failure hfailed] at hopen
    cases hopen

/-! ### New waiters -/

/-- Waiters are registered, one after the other. -/
inductive Registers : List Nat → Exchange → Exchange → Prop where
  | nil (x : Exchange) : Registers [] x x
  | cons {x y z : Exchange} {event : String} {id : Nat} {ids : List Nat}
      (hregister : x.register event = .ok (id, y)) (h : Registers ids y z) :
      Registers (id :: ids) x z

theorem Registers.trans (h : Registers ids x y) (h' : Registers ids' y z) :
    Registers (ids ++ ids') x z := by
  induction h with
  | nil x => exact h'
  | cons hregister _ ih => exact .cons hregister (ih h')

theorem Registers.then_evolves (h : Registers ids x y) (h' : Evolves reason ids' y z) :
    Evolves reason ids' x z := by
  induction h with
  | nil x => exact h'
  | cons hregister _ ih => exact .register hregister (ih h')

theorem Registers.sound (h : Registers ids x y) (hx : x.Sound) : y.Sound := by
  induction h with
  | nil x => exact hx
  | cons hregister _ ih => exact ih (hx.register hregister)

/-- They are new. -/
theorem Registers.length_le (h : Registers ids x y) (hx : x.Sound) :
    ∀ id ∈ ids, x.mailboxes.length ≤ id := by
  induction h with
  | nil x => simp
  | @cons x y z event first ids hregister _ ih =>
    intro id hid
    rcases List.mem_cons.mp hid with rfl | hid
    · exact Nat.le_of_eq (register_cases hx hregister).2.1.symm
    · have hle := ih (hx.register hregister) id hid
      rw [length_register hx hregister] at hle
      omega

/-- They give nobody an outcome. -/
theorem Registers.outcome? (h : Registers ids x y) (hx : x.Sound) (id : Nat) :
    y.outcome? id = x.outcome? id := by
  induction h with
  | nil x => rfl
  | cons hregister _ ih => exact (ih (hx.register hregister)).trans (outcome?_register hx hregister id)

theorem Registers.nodup (h : Registers ids x y) (hx : x.Sound) : ids.Nodup := by
  induction h with
  | nil x => exact List.nodup_nil
  | cons hregister hrest ih =>
    have hy := hx.register hregister
    refine List.nodup_cons.mpr ⟨?_, ih hy⟩
    -- those that come later have greater numbers
    intro hmem
    have hle := hrest.length_le hy _ hmem
    have hnew := (register_cases hx hregister).2.1
    rw [length_register hx hregister] at hle
    omega

theorem Registers.isHeld (h : Registers ids x y) (hx : x.Sound) :
    ∀ id ∈ ids, y.isHeld id = true := by
  induction h with
  | nil x => simp
  | @cons x y z event first ids hregister hrest ih =>
    intro id hid
    have hy := hx.register hregister
    rcases List.mem_cons.mp hid with rfl | hid
    · have hevolves : Evolves "" [] y z := hrest.then_evolves (.refl z)
      have hheld : y.isHeld id = true := by
        rw [isHeld_register hx hregister, if_pos rfl]
      rw [hevolves.isHeld_eq hy List.not_mem_nil (lt_of_isHeld hheld), hheld]
    · exact ih hy id hid

end EnvelopeClient.Exchange
