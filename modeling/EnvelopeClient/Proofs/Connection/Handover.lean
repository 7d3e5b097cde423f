import EnvelopeClient.Connection.Exchange
import EnvelopeClient.Proofs.Connection.Queues

/-!
# Handing a message over

A waiter can be gone while it still stands in its queue. `Exchange.deliver` goes through the queue
of a tag and sends the data to one waiter after the other until somebody takes it. What that comes
to is told by the first waiter that is still there: it gets the data, and the queue goes on behind it
(`deliver_of_first`); if there is none, the queue goes (`deliver_of_gone`).

Nothing is asked of the exchange but that a tag has one queue: its queues may be empty, and may hold
any number of waiters that are gone. `handed_to_first_there` says all of it about both outcomes.
-/

namespace EnvelopeClient

open Json

namespace Registry

variable {queues : List (String × List Nat)} {event tag : String} {ids : List Nat}

theorem lookup_cons (q : String × List Nat) :
    (q :: queues).lookup tag = if tag = q.1 then some q.2 else queues.lookup tag := by
  rw [List.lookup_cons]
  by_cases htag : tag = q.1
  · simp [htag]
  · simp only [beq_eq_false_iff_ne.mpr htag, if_neg htag]

theorem lookup_eq_none_of_not_mem (h : tag ∉ queues.map (·.1)) : queues.lookup tag = none := by
  rw [List.lookup_eq_none_iff]
  intro q hq
  have hne : tag ≠ q.1 := fun heq => h (heq ▸ List.mem_map_of_mem hq)
  simpa using hne

/-- Taking out a queue that is not there changes nothing. -/
theorem setQueue_nil_of_lookup (h : queues.lookup event = none) :
    setQueue event [] queues = queues := by
  induction queues with
  | nil => rfl
  | cons q queues ih =>
    rw [lookup_cons] at h
    by_cases hkey : event = q.1
    · rw [if_pos hkey] at h
      cases h
    · rw [if_neg hkey] at h
      rw [setQueue, if_neg (Ne.symm hkey), ih h]

theorem nodup_setQueue (hkeys : (queues.map (·.1)).Nodup) :
    ((setQueue event ids queues).map (·.1)).Nodup := by
  induction queues with
  | nil => rw [setQueue]; split <;> simp
  | cons q queues ih =>
    rw [List.map_cons, List.nodup_cons] at hkeys
    rw [setQueue]
    split
    · split
      · exact hkeys.2
      · exact List.nodup_cons.mpr hkeys
    · next hne =>
      refine List.nodup_cons.mpr ⟨?_, ih hkeys.2⟩
      intro hmem
      exact (mem_keys_setQueue hmem).elim hne hkeys.1

/-- The queue that was set is there unless it is empty, and every other is as it was. -/
theorem lookup_setQueue (hkeys : (queues.map (·.1)).Nodup) :
    (setQueue event ids queues).lookup tag =
      if tag = event then if ids = [] then none else some ids else queues.lookup tag := by
  induction queues with
  | nil =>
    rw [setQueue]
    by_cases hids : ids = []
    · simp [hids]
    · simp only [List.isEmpty_iff, if_neg hids, lookup_cons]
  | cons q queues ih =>
    obtain ⟨key, queue⟩ := q
    rw [List.map_cons, List.nodup_cons] at hkeys
    rw [setQueue]
    by_cases hkey : key = event
    · subst hkey
      by_cases htag : tag = key
      · subst htag
        by_cases hids : ids = []
        · simp [hids, lookup_eq_none_of_not_mem hkeys.1]
        · simp [hids]
      · by_cases hids : ids = [] <;> simp [hids, lookup_cons, htag]
    · rw [if_neg hkey, lookup_cons, lookup_cons, ih hkeys.2]
      by_cases htag : tag = key
      · subst htag
        simp [hkey]
      · simp [htag]

/-- Setting a queue leaves no empty one of its tag, and the others as they are. -/
theorem mem_setQueue {q : String × List Nat} (hkeys : (queues.map (·.1)).Nodup)
    (h : q ∈ setQueue event ids queues) : q = (event, ids) ∧ ids ≠ [] ∨ q.1 ≠ event ∧ q ∈ queues := by
  induction queues with
  | nil =>
    rw [setQueue] at h
    split at h
    · cases h
    · next hids => exact .inl ⟨List.mem_singleton.mp h, by simpa using hids⟩
  | cons head queues ih =>
    rw [List.map_cons, List.nodup_cons] at hkeys
    -- whoever stands behind the head has another tag than the head
    have hother : ∀ p ∈ queues, p.1 ≠ head.1 := by
      intro p hp heq
      exact hkeys.1 (heq ▸ List.mem_map_of_mem hp)
    rw [setQueue] at h
    split at h
    · next heq =>
      subst heq
      split at h
      · exact .inr ⟨hother q h, List.mem_cons_of_mem _ h⟩
      · next hids =>
        rcases List.mem_cons.mp h with rfl | h
        · exact .inl ⟨rfl, by simpa using hids⟩
        · exact .inr ⟨hother q h, List.mem_cons_of_mem _ h⟩
    · next hne =>
      rcases List.mem_cons.mp h with rfl | h
      · exact .inr ⟨hne, List.mem_cons_self⟩
      · exact (ih hkeys.2 h).imp_right fun h => ⟨h.1, List.mem_cons_of_mem _ h.2⟩

end Registry

namespace Exchange

variable {x : Exchange} {e : Envelope} {data : Value} {id : Nat} {gone rest : List Nat}

/-! ### Going through a queue -/

theorem send_of_gone (hid : x.isHeld id = false) (reply : Reply) :
    send x.mailboxes id reply = .error reply := by
  rw [isHeld] at hid
  rw [send, hid]
  rfl

theorem send_of_there (hid : x.isHeld id = true) (reply : Reply) :
    send x.mailboxes id reply = .ok (give reply x.mailboxes id) := by
  rw [isHeld] at hid
  rw [send, hid]
  rfl

/-- Whoever is gone is passed over, and the data with it goes on to the next. -/
theorem offer_append (hgone : ∀ id ∈ gone, x.isHeld id = false) (queue : List Nat) :
    offer x.mailboxes (some data) (gone ++ queue) = offer x.mailboxes (some data) queue := by
  induction gone with
  | nil => rfl
  | cons id gone ih =>
    rw [List.cons_append, offer, send_of_gone (hgone id List.mem_cons_self)]
    exact ih fun other hother => hgone other (List.mem_cons_of_mem _ hother)

theorem offer_of_there (hid : x.isHeld id = true) (rest : List Nat) :
    offer x.mailboxes (some data) (id :: rest) = (none, rest, give (.ok data) x.mailboxes id) := by
  rw [offer, send_of_there hid]
  cases rest <;> rfl

/-! ### What a message does -/

/-- The first waiter that is still there gets the message; those before it leave the queue. -/
theorem deliver_of_first (hqueue : x.registry.queue e.event = gone ++ id :: rest)
    (hgone : ∀ other ∈ gone, x.isHeld other = false) (hid : x.isHeld id = true) :
    x.deliver e = (true,
      ⟨{ x.registry with queues := Registry.setQueue e.event rest x.registry.queues },
        give (.ok e.data) x.mailboxes id⟩) := by
  have hlookup : x.registry.queues.lookup e.event = some (gone ++ id :: rest) := by
    rw [Registry.queue] at hqueue
    cases hlookup : x.registry.queues.lookup e.event with
    | none => simp [hlookup] at hqueue
    | some queue => rw [← hqueue, hlookup]; rfl
  rw [deliver, hlookup]
  simp only [offer_append hgone, offer_of_there hid, Option.isNone_none]

/-- If nobody is there any more, the message is dropped and the queue goes. -/
theorem deliver_of_gone (hgone : ∀ id ∈ x.registry.queue e.event, x.isHeld id = false) :
    x.deliver e = (false, { x with registry :=
      { x.registry with queues := Registry.setQueue e.event [] x.registry.queues } }) := by
  rw [Registry.queue] at hgone
  rw [deliver]
  cases hlookup : x.registry.queues.lookup e.event with
  | none => simp only [Registry.setQueue_nil_of_lookup hlookup]
  | some queue =>
    rw [hlookup, Option.getD_some] at hgone
    have hoffer : offer x.mailboxes (some e.data) (queue ++ []) = _ := offer_append hgone []
    rw [List.append_nil] at hoffer
    simp only [hoffer, offer, Option.isNone_some]

/-- Either somebody in the queue of a tag is still there, and those before are gone, or all are. -/
theorem exists_first (x : Exchange) (queue : List Nat) :
    (∃ gone id rest, queue = gone ++ id :: rest ∧ (∀ other ∈ gone, x.isHeld other = false) ∧
      x.isHeld id = true) ∨ ∀ id ∈ queue, x.isHeld id = false := by
  cases hfind : queue.find? x.isHeld with
  | none => exact .inr fun id hid => by simpa using List.find?_eq_none.mp hfind id hid
  | some id =>
    obtain ⟨hid, gone, rest, hqueue, hgone⟩ := List.find?_eq_some_iff_append.mp hfind
    exact .inl ⟨gone, id, rest, hqueue, fun other hother => by simpa using hgone other hother, hid⟩

/-- What only concerns one tag: the state, the number of the next waiter and the queues of all other
tags are as they were, and the queue of the tag is not an empty one. -/
structure Concerns (tag : String) (x y : Exchange) : Prop where
  status : y.registry.status = x.registry.status
  nextId : y.registry.nextId = x.registry.nextId
  others : ∀ other, other ≠ tag → y.registry.queues.lookup other = x.registry.queues.lookup other
  keys : (y.registry.queues.map (·.1)).Nodup
  nonempty : ∀ q ∈ y.registry.queues, q.2 = [] → q.1 ≠ tag ∧ q ∈ x.registry.queues

theorem concerns_setQueue (hkeys : (x.registry.queues.map (·.1)).Nodup) (tag : String)
    (ids : List Nat) (mailboxes : List Mailbox) :
    Concerns tag x
      ⟨{ x.registry with queues := Registry.setQueue tag ids x.registry.queues }, mailboxes⟩ where
  status := rfl
  nextId := rfl
  others other hother := by rw [Registry.lookup_setQueue hkeys, if_neg hother]
  keys := Registry.nodup_setQueue hkeys
  nonempty q hq hempty := by
    rcases Registry.mem_setQueue hkeys hq with ⟨rfl, hids⟩ | hold
    · exact absurd hempty hids
    · exact hold

/-- **A message is never lost to a waiter that is gone.** However many waiters of its tag are gone,
and wherever they stand in the queue, the message goes unchanged to the first that is there. That
one and those before it leave the queue, the others stay in their order, and the answer is that it
was handed over. If all are gone the queue goes, nobody is given anything, and the answer is that it
was not. Nothing else changes, and no queue is left empty. -/
theorem handed_to_first_there (x : Exchange) (e : Envelope)
    (hkeys : (x.registry.queues.map (·.1)).Nodup) :
    Concerns e.event x (x.deliver e).2 ∧
    ((∃ gone id rest, x.registry.queue e.event = gone ++ id :: rest ∧
        (∀ other ∈ gone, x.isHeld other = false) ∧ x.isHeld id = true ∧
        (x.deliver e).1 = true ∧
        (x.deliver e).2.registry.queues.lookup e.event = (if rest = [] then none else some rest) ∧
        (∃ box, x.mailboxes[id]? = some box ∧
          (x.deliver e).2.mailboxes[id]? = some { box with outcome := some (.ok e.data) }) ∧
        ∀ other, other ≠ id → (x.deliver e).2.mailboxes[other]? = x.mailboxes[other]?) ∨
      (∀ id ∈ x.registry.queue e.event, x.isHeld id = false) ∧
        (x.deliver e).1 = false ∧
        (x.deliver e).2.registry.queues.lookup e.event = none ∧
        (x.deliver e).2.mailboxes = x.mailboxes) := by
  rcases exists_first x (x.registry.queue e.event) with
    ⟨gone, id, rest, hqueue, hgone, hid⟩ | hgone
  · rw [deliver_of_first hqueue hgone hid]
    refine ⟨concerns_setQueue hkeys _ _ _, .inl ⟨gone, id, rest, hqueue, hgone, hid, rfl, ?_, ?_, ?_⟩⟩
    · exact (Registry.lookup_setQueue hkeys).trans (if_pos rfl)
    · obtain ⟨box, hbox, -⟩ := (Option.any_eq_true _ _).mp hid
      refine ⟨box, hbox, ?_⟩
      show (give (.ok e.data) x.mailboxes id)[id]? = _
      rw [give, List.getElem?_modify_eq, hbox]
      rfl
    · intro other hother
      show (give (.ok e.data) x.mailboxes id)[other]? = _
      rw [give, List.getElem?_modify_ne _ _ (Ne.symm hother)]
  · rw [deliver_of_gone hgone]
    refine ⟨concerns_setQueue hkeys _ _ _, .inr ⟨hgone, rfl, ?_, rfl⟩⟩
    exact (Registry.lookup_setQueue hkeys).trans (if_pos rfl)

/-- The first waiter for `a` is gone, and so is the last. -/
theorem handed_past_the_gone :
    let x : Exchange := ⟨⟨.open, 4, [("b", [3]), ("a", [0, 1, 2])]⟩,
      [⟨"a", none, false⟩, ⟨"a", none, true⟩, ⟨"a", none, false⟩, ⟨"b", none, true⟩]⟩
    (x.registry.queues.map (·.1)).Nodup ∧ Concerns "a" x (x.deliver ⟨"a", .null⟩).2 ∧
      (x.deliver ⟨"a", .null⟩).1 = true ∧
      (x.deliver ⟨"a", .null⟩).2.registry.queues.lookup "a" = some [2] ∧
      (x.deliver ⟨"a", .null⟩).2.outcome? 1 = some (.ok .null) := by
  intro x
  have hkeys : (x.registry.queues.map (·.1)).Nodup := by decide
  obtain ⟨hconcerns, -⟩ := handed_to_first_there x ⟨"a", .null⟩ hkeys
  exact ⟨hkeys, hconcerns, rfl, rfl, rfl⟩

end Exchange

end EnvelopeClient
