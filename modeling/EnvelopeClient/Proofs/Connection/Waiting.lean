import EnvelopeClient.Proofs.Connection.Handover

/-!
# Who waits, and the queues that say so

A waiter is *waiting* while it is held and has no outcome. `Exchange.Sound` is what ties the
registry to the mailboxes: the queue of a tag is exactly the waiters of that tag that are waiting,
in the order of their registration, and a closed exchange has no queue at all. Every operation keeps
it, and with it each operation has a plain meaning on the mailboxes: registering adds one
(`register_of_open`), delivering gives the oldest waiting one of the tag its outcome
(`deliver_of_cons`), closing fails everyone who waits and nobody else (`mailboxes_close`).
-/

namespace EnvelopeClient

open Json

/-- Whether a waiter is there to receive and has not been given anything. -/
def Mailbox.isWaiting (box : Mailbox) : Bool := box.held && box.outcome.isNone

namespace Exchange

/-- Whether a waiter is waiting. -/
def isWaiting (x : Exchange) (id : Nat) : Bool := (x.mailboxes[id]?).any (·.isWaiting)

/-- All waiters ever registered for a tag, the oldest first. -/
def idsOf (x : Exchange) (tag : String) : List Nat :=
  (List.range x.mailboxes.length).filter fun id => x.eventOf id = tag

/-- Those of them that are waiting. -/
def waitingFor (x : Exchange) (tag : String) : List Nat := (x.idsOf tag).filter x.isWaiting

/-- The registry knows exactly who waits. -/
structure Sound (x : Exchange) : Prop where
  tidy : Registry.Tidy x.registry.queues
  numbered : x.registry.nextId = x.mailboxes.length
  queue_eq : ∀ tag, x.registry.queue tag = x.waitingFor tag
  closed : x.status = .closed → x.registry.queues = []

variable {x : Exchange}

theorem lt_of_isWaiting {id : Nat} (h : x.isWaiting id = true) : id < x.mailboxes.length := by
  rcases Nat.lt_or_ge id x.mailboxes.length with hlt | hge
  · exact hlt
  · rw [isWaiting, List.getElem?_eq_none hge] at h
    cases h

theorem isHeld_of_isWaiting {id : Nat} (h : x.isWaiting id = true) : x.isHeld id = true := by
  rw [isWaiting, Option.any_eq_true] at h
  obtain ⟨box, hbox, hwaiting⟩ := h
  rw [isHeld, hbox]
  simp only [Mailbox.isWaiting, Bool.and_eq_true] at hwaiting
  exact hwaiting.1

theorem mem_idsOf {id : Nat} {tag : String} :
    id ∈ x.idsOf tag ↔ id < x.mailboxes.length ∧ x.eventOf id = tag := by
  simp [idsOf]

theorem mem_waitingFor {id : Nat} {tag : String} :
    id ∈ x.waitingFor tag ↔ x.isWaiting id = true ∧ x.eventOf id = tag := by
  rw [waitingFor, List.mem_filter, mem_idsOf]
  constructor
  · rintro ⟨⟨-, htag⟩, hwaiting⟩
    exact ⟨hwaiting, htag⟩
  · rintro ⟨hwaiting, htag⟩
    exact ⟨⟨lt_of_isWaiting hwaiting, htag⟩, hwaiting⟩

theorem nodup_idsOf (x : Exchange) (tag : String) : (x.idsOf tag).Nodup :=
  List.nodup_range.filter _

theorem nodup_waitingFor (x : Exchange) (tag : String) : (x.waitingFor tag).Nodup :=
  (x.nodup_idsOf tag).filter _

/-! ### Changing one mailbox -/

/-- The exchange with one mailbox changed. -/
def withMailbox (x : Exchange) (registry : Registry) (id : Nat) (f : Mailbox → Mailbox) :
    Exchange := ⟨registry, x.mailboxes.modify id f⟩

theorem eventOf_withMailbox {f : Mailbox → Mailbox} (hevent : ∀ box, (f box).event = box.event)
    (registry : Registry) (id other : Nat) :
    (x.withMailbox registry id f).eventOf other = x.eventOf other := by
  rw [eventOf, eventOf, withMailbox, List.getElem?_modify, Option.map_eq_map, Option.map_map]
  congr 2
  funext box
  by_cases h : id = other <;> simp [h, hevent]

theorem idsOf_withMailbox {f : Mailbox → Mailbox} (hevent : ∀ box, (f box).event = box.event)
    (registry : Registry) (id : Nat) (tag : String) :
    (x.withMailbox registry id f).idsOf tag = x.idsOf tag := by
  rw [idsOf, idsOf]
  simp only [eventOf_withMailbox hevent]
  simp [withMailbox]

theorem isWaiting_withMailbox {f : Mailbox → Mailbox} (hf : ∀ box, (f box).isWaiting = false)
    (registry : Registry) (id other : Nat) :
    (x.withMailbox registry id f).isWaiting other = (x.isWaiting other && decide (other ≠ id)) := by
  rw [isWaiting, isWaiting, withMailbox, List.getElem?_modify, Option.map_eq_map, Option.any_map]
  by_cases h : id = other
  · subst h
    simp [hf]
  · simp [h, Ne.symm h]

/-- A waiter that stops waiting leaves its place; all others keep theirs. -/
theorem waitingFor_withMailbox {f : Mailbox → Mailbox} (hevent : ∀ box, (f box).event = box.event)
    (hf : ∀ box, (f box).isWaiting = false) (registry : Registry) (id : Nat) (tag : String) :
    (x.withMailbox registry id f).waitingFor tag = (x.waitingFor tag).filter (· ≠ id) := by
  rw [waitingFor, waitingFor, idsOf_withMailbox hevent, List.filter_filter]
  congr 1
  funext other
  rw [isWaiting_withMailbox hf, Bool.and_comm]

/-- Only the changed mailbox has another outcome. -/
theorem outcome?_withMailbox (f : Mailbox → Mailbox) (registry : Registry) (id other : Nat) :
    (x.withMailbox registry id f).outcome? other =
      if other = id then (x.mailboxes[id]?).bind fun box => (f box).outcome
      else x.outcome? other := by
  rw [outcome?, withMailbox, List.getElem?_modify]
  by_cases h : id = other
  · subst h
    cases hbox : x.mailboxes[id]? <;> simp
  · simp [h, Ne.symm h, outcome?]

/-- The mailbox of a waiter that is given its outcome. -/
def answered (reply : Reply) (box : Mailbox) : Mailbox := { box with outcome := some reply }

/-- The mailbox of a waiter that is gone. -/
def released (box : Mailbox) : Mailbox := { box with held := false }

theorem event_answered (reply : Reply) (box : Mailbox) :
    (answered reply box).event = box.event := rfl

theorem event_released (box : Mailbox) : (released box).event = box.event := rfl

theorem isWaiting_answered (reply : Reply) (box : Mailbox) :
    (answered reply box).isWaiting = false := by
  simp [answered, Mailbox.isWaiting]

theorem isWaiting_released (box : Mailbox) : (released box).isWaiting = false := by
  simp [released, Mailbox.isWaiting]

/-! ### Registering -/

/-- The exchange with one more mailbox. -/
def extended (x : Exchange) (registry : Registry) (event : String) : Exchange :=
  ⟨registry, x.mailboxes ++ [⟨event, none, true⟩]⟩

theorem getElem?_extended (registry : Registry) (event : String) (id : Nat) :
    (x.extended registry event).mailboxes[id]? =
      if id = x.mailboxes.length then some ⟨event, none, true⟩ else x.mailboxes[id]? := by
  rw [extended]
  rcases Nat.lt_trichotomy id x.mailboxes.length with hlt | heq | hgt
  · rw [List.getElem?_append_left hlt, if_neg (Nat.ne_of_lt hlt)]
  · simp [heq]
  · rw [if_neg (Nat.ne_of_gt hgt), List.getElem?_eq_none (Nat.le_of_lt hgt),
      List.getElem?_eq_none]
    simp only [List.length_append, List.length_singleton]
    omega

theorem eventOf_extended (registry : Registry) (event : String) (id : Nat) :
    (x.extended registry event).eventOf id =
      if id = x.mailboxes.length then event else x.eventOf id := by
  rw [eventOf, getElem?_extended]
  split <;> rfl

theorem isWaiting_extended (registry : Registry) (event : String) (id : Nat) :
    (x.extended registry event).isWaiting id =
      if id = x.mailboxes.length then true else x.isWaiting id := by
  rw [isWaiting, getElem?_extended]
  split <;> rfl

theorem outcome?_extended (registry : Registry) (event : String) (id : Nat) :
    (x.extended registry event).outcome? id = x.outcome? id := by
  rw [outcome?, getElem?_extended]
  split
  · next heq => simp [outcome?, heq]
  · rfl

/-- Nobody has been given anything under a number that is still to be given out. -/
theorem outcome?_of_length_le {id : Nat} (h : x.mailboxes.length ≤ id) : x.outcome? id = none := by
  rw [outcome?, List.getElem?_eq_none h]
  rfl

/-- A new waiter comes behind all others of its tag. -/
theorem idsOf_extended (registry : Registry) (event tag : String) :
    (x.extended registry event).idsOf tag =
      x.idsOf tag ++ if tag = event then [x.mailboxes.length] else [] := by
  have hlength : (x.extended registry event).mailboxes.length = x.mailboxes.length + 1 := by
    simp [extended]
  rw [idsOf, hlength, List.range_succ, List.filter_append]
  congr 1
  · refine List.filter_congr ?_
    intro id hid
    rw [eventOf_extended, if_neg (Nat.ne_of_lt (List.mem_range.mp hid))]
  · by_cases h : tag = event
    · simp [eventOf_extended, h]
    · simp [eventOf_extended, h, Ne.symm h]

theorem waitingFor_extended (registry : Registry) (event tag : String) :
    (x.extended registry event).waitingFor tag =
      x.waitingFor tag ++ if tag = event then [x.mailboxes.length] else [] := by
  rw [waitingFor, idsOf_extended, List.filter_append]
  congr 1
  · refine List.filter_congr ?_
    intro id hid
    rw [isWaiting_extended, if_neg (Nat.ne_of_lt (mem_idsOf.mp hid).1)]
  · split <;> simp [isWaiting_extended]

/-- An open exchange registers a waiter behind all others. -/
theorem register_of_open (h : x.Sound) (hopen : x.status = .open) (event : String) :
    x.register event = .ok (x.mailboxes.length, x.extended
      { x.registry with
        nextId := x.mailboxes.length + 1
        queues := Registry.setQueue event (x.registry.queue event ++ [x.mailboxes.length])
          x.registry.queues } event) := by
  rw [status] at hopen
  simp only [register, Registry.register, hopen, if_true, h.numbered]
  rfl

/-- No other does. -/
theorem register_of_not_open (hopen : x.status ≠ .open) (event : String) :
    x.register event =
      .error (.notConnected s!"cannot await '{event}' in state {x.status.name}") := by
  rw [status] at hopen
  simp only [register, Registry.register, if_neg hopen, status]

/-- What registering comes to. -/
theorem register_cases (h : x.Sound) {event : String} {id : Nat} {y : Exchange}
    (hy : x.register event = .ok (id, y)) :
    x.status = .open ∧ id = x.mailboxes.length ∧
      ∃ registry, y = x.extended registry event ∧ registry.status = x.status := by
  by_cases hopen : x.status = .open
  · rw [register_of_open h hopen] at hy
    cases hy
    exact ⟨hopen, rfl, _, rfl, rfl⟩
  · rw [register_of_not_open hopen] at hy
    cases hy

theorem Sound.register (h : x.Sound) {event : String} {id : Nat} {y : Exchange}
    (hy : x.register event = .ok (id, y)) : y.Sound := by
  have hopen := (register_cases h hy).1
  rw [register_of_open h hopen] at hy
  cases hy
  refine ⟨Registry.tidy_setQueue h.tidy _ _, by simp [extended], ?_, ?_⟩
  · intro tag
    rw [waitingFor_extended, Registry.queue_eq]
    show Registry.lookupQueue (Registry.setQueue _ _ _) tag = _
    rw [Registry.lookupQueue_setQueue h.tidy, ← h.queue_eq tag]
    by_cases htag : tag = event
    · simp [htag]
    · simp [htag, Registry.queue_eq]
  · intro hclosed
    have hclosed : x.status = .closed := hclosed
    rw [hopen] at hclosed
    cases hclosed

/-! ### Delivering -/

/-- A message nobody waits for changes nothing. -/
theorem deliver_of_nil (h : x.Sound) {e : Envelope} (hq : x.waitingFor e.event = []) :
    x.deliver e = (false, x) := by
  have hqueue : x.registry.queue e.event = [] := by rw [h.queue_eq, hq]
  have hgone : ∀ id ∈ x.registry.queue e.event, x.isHeld id = false := by simp [hqueue]
  rw [Registry.queue_eq] at hqueue
  rw [deliver_of_gone hgone, Registry.setQueue_nil_of_lookupQueue h.tidy hqueue]

/-- A message goes to the oldest waiter of its tag. -/
theorem deliver_of_cons (h : x.Sound) {e : Envelope} {id : Nat} {rest : List Nat}
    (hq : x.waitingFor e.event = id :: rest) :
    x.deliver e = (true, x.withMailbox
      { x.registry with queues := Registry.setQueue e.event rest x.registry.queues } id
      (answered (.ok e.data))) := by
  have hqueue : x.registry.queue e.event = [] ++ id :: rest := by rw [h.queue_eq, hq]; rfl
  have hid : x.isHeld id = true :=
    isHeld_of_isWaiting (mem_waitingFor.mp (hq ▸ List.mem_cons_self)).1
  rw [deliver_of_first hqueue (by simp) hid]
  rfl

/-- Taking one waiter out of its queue keeps an exchange sound if its mailbox stops waiting. -/
theorem Sound.withMailbox (h : x.Sound) {f : Mailbox → Mailbox} (id : Nat)
    (hevent : ∀ box, (f box).event = box.event) (hf : ∀ box, (f box).isWaiting = false) :
    (x.withMailbox
      { x.registry with
        queues := Registry.setQueue (x.eventOf id)
          ((x.registry.queue (x.eventOf id)).filter (· ≠ id)) x.registry.queues } id f).Sound := by
  refine ⟨Registry.tidy_setQueue h.tidy _ _, ?_, ?_, ?_⟩
  · simpa [Exchange.withMailbox] using h.numbered
  · intro tag
    rw [waitingFor_withMailbox hevent hf, ← h.queue_eq, Registry.queue_eq]
    show Registry.lookupQueue (Registry.setQueue _ _ _) tag = _
    rw [Registry.lookupQueue_setQueue h.tidy]
    by_cases htag : tag = x.eventOf id
    · simp [htag]
    · -- the waiter is of one tag only, so it was in no other queue
      rw [if_neg htag, ← Registry.queue_eq, List.filter_eq_self.mpr]
      intro other hother
      rw [h.queue_eq] at hother
      have hother := (mem_waitingFor.mp hother).2
      have hne : other ≠ id := by
        rintro rfl
        exact htag hother.symm
      simpa using hne
  · intro hclosed
    have hnil := h.closed hclosed
    show Registry.setQueue _ _ x.registry.queues = []
    rw [Registry.queue_eq, hnil]
    rfl

/-- The queue behind its oldest waiter is the queue without that waiter. -/
theorem filter_ne_of_cons {tag : String} {id : Nat} {rest : List Nat}
    (hq : x.waitingFor tag = id :: rest) : (x.waitingFor tag).filter (· ≠ id) = rest := by
  have hnodup := x.nodup_waitingFor tag
  rw [hq, List.nodup_cons] at hnodup
  rw [hq, List.filter_cons_of_neg (by simp), List.filter_eq_self]
  intro other hother
  have hne : other ≠ id := by
    rintro rfl
    exact hnodup.1 hother
  simpa using hne

theorem Sound.deliver (h : x.Sound) (e : Envelope) : (x.deliver e).2.Sound := by
  cases hq : x.waitingFor e.event with
  | nil => rwa [deliver_of_nil h hq]
  | cons id rest =>
    have hevent : x.eventOf id = e.event := (mem_waitingFor.mp (hq ▸ List.mem_cons_self)).2
    have hsound := h.withMailbox id (event_answered (.ok e.data)) (isWaiting_answered _)
    rw [hevent, h.queue_eq, filter_ne_of_cons hq] at hsound
    rwa [deliver_of_cons h hq]

/-! ### Letting go -/

theorem cancel_eq (id : Nat) :
    x.cancel id = x.withMailbox
      { x.registry with
        queues := Registry.setQueue (x.eventOf id)
          ((x.registry.queue (x.eventOf id)).filter (· ≠ id)) x.registry.queues } id released := rfl

theorem Sound.cancel (h : x.Sound) (id : Nat) : (x.cancel id).Sound :=
  h.withMailbox id event_released isWaiting_released

theorem settle_eq (id : Nat) : x.settle id = x.withMailbox x.registry id released := rfl

/-- A waiter that has its outcome is in no queue. -/
theorem Sound.settle (h : x.Sound) {id : Nat} (hid : x.isWaiting id = false) :
    (x.settle id).Sound := by
  refine ⟨h.tidy, by simpa [settle_eq, Exchange.withMailbox] using h.numbered, ?_, h.closed⟩
  intro tag
  rw [settle_eq, waitingFor_withMailbox event_released isWaiting_released]
  show x.registry.queue tag = _
  rw [h.queue_eq, List.filter_eq_self.mpr]
  intro other hother
  have hne : other ≠ id := by
    rintro rfl
    rw [(mem_waitingFor.mp hother).1] at hid
    cases hid
  simpa using hne

/-! ### Closing -/

/-- The mailbox of a waiter behind a close. -/
def failed (reason : String) (box : Mailbox) : Mailbox :=
  if box.isWaiting then answered (.error (closedFailure box.event reason)) box else box

/-- Everybody who waits, with the tag. -/
theorem mem_failed (h : x.Sound) {tag : String} {id : Nat} :
    (tag, id) ∈ x.registry.close.1 ↔ x.isWaiting id = true ∧ x.eventOf id = tag := by
  rw [← mem_waitingFor, ← h.queue_eq, Registry.queue_eq, Registry.mem_lookupQueue h.tidy,
    Registry.close, List.mem_flatMap]
  constructor
  · rintro ⟨⟨key, ids⟩, hmem, hid⟩
    obtain ⟨other, hother, heq⟩ := List.mem_map.mp hid
    cases heq
    exact ⟨ids, hmem, hother⟩
  · rintro ⟨ids, hmem, hid⟩
    exact ⟨(tag, ids), hmem, List.mem_map.mpr ⟨id, hid, rfl⟩⟩

/-- Giving out outcomes reaches exactly the waiters listed, each under its own tag. -/
theorem getElem?_foldl_give (reason : String) (tagOf : Nat → String)
    {list : List (String × Nat)} (hlist : ∀ p ∈ list, p.1 = tagOf p.2) (boxes : List Mailbox)
    (id : Nat) :
    (list.foldl (fun boxes (event, id) =>
      give (.error (closedFailure event reason)) boxes id) boxes)[id]? =
      (boxes[id]?).map fun box =>
        if id ∈ list.map (·.2) then answered (.error (closedFailure (tagOf id) reason)) box
        else box := by
  induction list generalizing boxes with
  | nil => simp
  | cons p list ih =>
    obtain ⟨event, other⟩ := p
    have hevent : event = tagOf other := hlist (event, other) (by simp)
    have hrest : ∀ p ∈ list, p.1 = tagOf p.2 := by
      intro p hp
      exact hlist p (List.mem_cons_of_mem _ hp)
    rw [List.foldl_cons, ih hrest]
    simp only [give, List.getElem?_modify, Option.map_eq_map, Option.map_map]
    congr 1
    funext box
    by_cases h : other = id
    · -- a waiter listed twice is told the same twice
      subst h
      simp [answered, hevent]
    · have hmem : id ∈ ((event, other) :: list).map (·.2) ↔ id ∈ list.map (·.2) := by
        rw [List.map_cons, List.mem_cons]
        exact or_iff_right (Ne.symm h)
      simp only [hmem, Function.comp_apply, if_neg h]

/-- A close fails everyone who waits, and nobody else. -/
theorem mailboxes_close (h : x.Sound) (reason : String) :
    (x.close reason).mailboxes = x.mailboxes.map (failed reason) := by
  refine List.ext_getElem? ?_
  intro id
  have hlist : ∀ p ∈ x.registry.close.1, p.1 = x.eventOf p.2 := by
    intro p hp
    exact ((mem_failed h).mp hp).2.symm
  have hgive := getElem?_foldl_give reason x.eventOf hlist x.mailboxes id
  rw [close]
  refine hgive.trans ?_
  rw [List.getElem?_map]
  cases hbox : x.mailboxes[id]? with
  | none => rfl
  | some box =>
    have hmem : id ∈ x.registry.close.1.map (·.2) ↔ box.isWaiting = true := by
      rw [List.mem_map]
      constructor
      · rintro ⟨⟨tag, other⟩, hp, rfl⟩
        have hwaiting := ((mem_failed h).mp hp).1
        simpa [isWaiting, hbox] using hwaiting
      · intro hwaiting
        refine ⟨(x.eventOf id, id), (mem_failed h).mpr ⟨?_, rfl⟩, rfl⟩
        simpa [isWaiting, hbox] using hwaiting
    have htag : x.eventOf id = box.event := by simp [eventOf, hbox]
    simp only [Option.map_some, failed, hmem, htag]

theorem eventOf_failed (reason : String) (box : Mailbox) :
    (failed reason box).event = box.event := by
  unfold failed
  split <;> rfl

theorem isWaiting_failed (reason : String) (box : Mailbox) :
    (failed reason box).isWaiting = false := by
  by_cases hbox : box.isWaiting = true <;> simp [failed, hbox, isWaiting_answered]

theorem eventOf_close (h : x.Sound) (reason : String) (id : Nat) :
    (x.close reason).eventOf id = x.eventOf id := by
  rw [eventOf, eventOf, mailboxes_close h, List.getElem?_map, Option.map_map]
  congr 2
  funext box
  exact eventOf_failed reason box

theorem idsOf_close (h : x.Sound) (reason tag : String) :
    (x.close reason).idsOf tag = x.idsOf tag := by
  rw [idsOf, idsOf, mailboxes_close h, List.length_map]
  simp only [eventOf_close h]

/-- Nobody waits behind a close. -/
theorem isWaiting_close (h : x.Sound) (reason : String) (id : Nat) :
    (x.close reason).isWaiting id = false := by
  rw [isWaiting, mailboxes_close h, List.getElem?_map, Option.any_map]
  cases x.mailboxes[id]? with
  | none => rfl
  | some box => exact isWaiting_failed reason box

/-- Who waits at a close is told its reason; everyone else keeps what there is. -/
theorem outcome?_close (h : x.Sound) (reason : String) (id : Nat) :
    (x.close reason).outcome? id =
      if x.isWaiting id then some (.error (closedFailure (x.eventOf id) reason))
      else x.outcome? id := by
  rw [outcome?, mailboxes_close h, List.getElem?_map, isWaiting, eventOf, outcome?]
  cases x.mailboxes[id]? with
  | none => rfl
  | some box =>
    simp only [Option.map_some, Option.bind_some, Option.any_some, Option.getD_some, failed]
    split <;> rfl

theorem Sound.close (h : x.Sound) (reason : String) : (x.close reason).Sound := by
  refine ⟨Registry.tidy_nil, ?_, ?_, fun _ => rfl⟩
  · rw [mailboxes_close h, List.length_map]
    exact h.numbered
  · intro tag
    have hnobody : (x.close reason).waitingFor tag = [] := by
      refine List.filter_eq_nil_iff.mpr ?_
      intro id _
      simp [isWaiting_close h]
    rw [hnobody]
    rfl

/-! ### A closed exchange -/

theorem isWaiting_of_closed (h : x.Sound) (hclosed : x.status = .closed) (id : Nat) :
    x.isWaiting id = false := by
  have hqueue := h.queue_eq (x.eventOf id)
  rw [Registry.queue_eq, h.closed hclosed] at hqueue
  cases hid : x.isWaiting id with
  | false => rfl
  | true =>
    have hmem := mem_waitingFor.mpr ⟨hid, rfl⟩
    rw [← hqueue] at hmem
    cases hmem

theorem sound_opened : opened.Sound :=
  ⟨Registry.tidy_nil, rfl, fun _ => rfl, fun _ => rfl⟩

end Exchange

end EnvelopeClient
