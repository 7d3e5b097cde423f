import EnvelopeClient.Proofs.Connection.Freeing
import EnvelopeClient.Proofs.Connection.Lifecycle
import Mathlib.Data.List.Flatten
import Mathlib.Data.List.Nodup
import Mathlib.Data.List.Perm.Basic

/-!
# Whose the slots are

A waiter without an outcome has a slot in the registry. `Exchange.Accounts` says whose waiters the
slots belong to: each waiter is held by one owner, and nobody else waits. What calls and the reader
do keeps the accounts (`Connection.accounts_poll`, `accounts_first`, `accounts_drop`,
`accounts_readerStep`), so there are as many slots as waiters without an outcome (`Accounts.slots`),
and a call that ends leaves none of its own and takes none of the others' (`Accounts.givesUp`).
-/

namespace EnvelopeClient

/-- Taking the value of a key out of a list in which every key stands once. -/
theorem perm_cons_filter {α β : Type} [DecidableEq α] {list : List (α × β)} {key : α} {value : β}
    (hkeys : (list.map Prod.fst).Nodup) (hmem : (key, value) ∈ list) :
    list.Perm ((key, value) :: list.filter (·.1 ≠ key)) := by
  induction list with
  | nil => cases hmem
  | cons first list ih =>
    rw [List.map_cons, List.nodup_cons] at hkeys
    have hfresh : ∀ p ∈ list, p.1 ≠ first.1 := by
      intro p hp heq
      exact hkeys.1 (heq ▸ List.mem_map_of_mem hp)
    rcases List.mem_cons.mp hmem with rfl | hmem
    · have hrest : list.filter (·.1 ≠ key) = list := by
        refine List.filter_eq_self.mpr ?_
        intro p hp
        simpa using hfresh p hp
      rw [List.filter_cons_of_neg (by simp), hrest]
    · have hne : first.1 ≠ key := (hfresh _ hmem).symm
      rw [List.filter_cons_of_pos (by simpa using hne)]
      exact ((ih hkeys.2 hmem).cons first).trans (.swap _ _ _)

/-! ### The registry -/

namespace Registry

theorem length_close (r : Registry) : r.close.1.length = r.pending := by
  rw [close, pending]
  induction r.queues with
  | nil => rfl
  | cons q queues ih =>
    rw [List.flatMap_cons, List.length_append, List.length_map, ih, List.foldr_cons]

/-- Nobody has two slots. -/
theorem nodup_close {r : Registry} (h : Tidy r.queues) (hqueue : ∀ tag, (r.queue tag).Nodup) :
    r.close.1.Nodup := by
  refine List.nodup_flatMap.mpr ⟨?_, ?_⟩
  · rintro ⟨tag, ids⟩ hmem
    have hids := hqueue tag
    rw [queue_eq, lookupQueue_of_mem h hmem] at hids
    refine hids.map ?_
    intro first second heq
    exact (Prod.mk.inj heq).2
  · refine (List.pairwise_map.mp h.nodup).imp ?_
    intro q q' hne p hp hp'
    obtain ⟨first, -, rfl⟩ := List.mem_map.mp hp
    obtain ⟨second, -, heq⟩ := List.mem_map.mp hp'
    exact hne (Prod.mk.inj heq).1.symm

end Registry

namespace Exchange

variable {x y : Exchange} {ids ids' mine others : List Nat} {reason : String}

/-- Nobody waits but these waiters, each of which is held and stands here once. -/
structure Accounts (ids : List Nat) (x : Exchange) : Prop where
  sound : x.Sound
  nodup : ids.Nodup
  held : ∀ id ∈ ids, x.isHeld id = true
  covers : ∀ id, x.isWaiting id = true → id ∈ ids

/-- What the slots are if these are the waiters there are: there is one for every waiter without an
outcome, in the queue of its tag. -/
structure Slots (ids : List Nat) (x : Exchange) : Prop where
  nodup : ids.Nodup
  mem_queue : ∀ tag id, id ∈ x.registry.queue tag ↔
    id ∈ ids ∧ x.outcome? id = none ∧ x.eventOf id = tag
  pending : x.pending = (ids.filter fun id => (x.outcome? id).isNone).length

/-- Nobody new has a slot, of these waiters nobody has, and whoever else had one has it still or has
been given something. -/
structure GivesUp (ids : List Nat) (x y : Exchange) : Prop where
  old : ∀ tag, ∀ id ∈ y.registry.queue tag, id ∈ x.registry.queue tag
  gone : ∀ tag, ∀ id ∈ ids, id ∉ y.registry.queue tag
  kept : ∀ tag, ∀ id ∈ x.registry.queue tag, id ∉ ids →
    id ∈ y.registry.queue tag ∨ ∃ r, y.outcome? id = some r

theorem accounts_opened : Accounts [] opened where
  sound := sound_opened
  nodup := List.nodup_nil
  held id hid := by cases hid
  covers id hid := by cases hid

theorem Accounts.isWaiting_iff (h : Accounts ids x) {id : Nat} :
    x.isWaiting id = true ↔ id ∈ ids ∧ x.outcome? id = none := by
  constructor
  · intro hid
    refine ⟨h.covers id hid, ?_⟩
    rw [isWaiting_eq, Bool.and_eq_true] at hid
    simpa using hid.2
  · rintro ⟨hid, hnone⟩
    rw [isWaiting_eq, h.held id hid, hnone]
    rfl

theorem Accounts.mem_queue (h : Accounts ids x) {tag : String} {id : Nat} :
    id ∈ x.registry.queue tag ↔ id ∈ ids ∧ x.outcome? id = none ∧ x.eventOf id = tag := by
  rw [h.sound.queue_eq, mem_waitingFor, h.isWaiting_iff, and_assoc]

/-- There are as many slots as waiters without an outcome. -/
theorem Accounts.slots (h : Accounts ids x) : Slots ids x where
  nodup := h.nodup
  mem_queue _ _ := h.mem_queue
  pending := by
    -- a close would fail everyone who has a slot, and these are the waiters without an outcome
    have hpairs : x.registry.close.1.Nodup := by
      refine Registry.nodup_close h.sound.tidy ?_
      intro tag
      rw [h.sound.queue_eq]
      exact x.nodup_waitingFor tag
    have hfailed : (x.registry.close.1.map Prod.snd).Nodup := by
      refine hpairs.map_on ?_
      rintro ⟨tag, id⟩ hp ⟨tag', id'⟩ hp' rfl
      rw [← ((mem_failed h.sound).mp hp).2, ← ((mem_failed h.sound).mp hp').2]
    have hperm : (x.registry.close.1.map Prod.snd).Perm
        (ids.filter fun id => (x.outcome? id).isNone) := by
      refine (List.perm_ext_iff_of_nodup hfailed (h.nodup.filter _)).mpr ?_
      intro id
      rw [List.mem_filter, Option.isNone_iff_eq_none, ← h.isWaiting_iff, List.mem_map]
      constructor
      · rintro ⟨⟨tag, other⟩, hp, rfl⟩
        exact ((mem_failed h.sound).mp hp).1
      · intro hid
        exact ⟨(x.eventOf id, id), (mem_failed h.sound).mpr ⟨hid, rfl⟩, rfl⟩
    rw [pending, ← Registry.length_close, ← hperm.length_eq, List.length_map]

/-- Without waiters there are no slots. -/
theorem Slots.pending_nil (h : Slots [] x) : x.pending = 0 := h.pending

/-- Without slots nobody waits. -/
theorem accounts_of_pending (hsound : x.Sound) (hpending : x.pending = 0) : Accounts [] x where
  sound := hsound
  nodup := List.nodup_nil
  held id hid := by cases hid
  covers id hid := by
    -- a close would fail whoever waits
    have hfailed := (mem_failed hsound).mpr ⟨hid, rfl⟩
    rw [pending, ← Registry.length_close, List.length_eq_zero_iff] at hpending
    rw [hpending] at hfailed
    cases hfailed

theorem Accounts.perm (h : Accounts ids x) (hperm : ids.Perm ids') : Accounts ids' x where
  sound := h.sound
  nodup := hperm.nodup h.nodup
  held id hid := h.held id (hperm.mem_iff.mpr hid)
  covers id hid := hperm.mem_iff.mp (h.covers id hid)

/-- New waiters come to the accounts. -/
theorem Accounts.registers (h : Accounts others x) (hy : Registers ids x y) :
    Accounts (ids ++ others) y := by
  have hevolves : Evolves "" [] x y := hy.then_evolves (.refl y)
  have hnew := hy.length_le h.sound
  refine ⟨hy.sound h.sound, ?_, ?_, ?_⟩
  · refine List.nodup_append'.mpr ⟨hy.nodup h.sound, h.nodup, ?_⟩
    intro id hid hother
    exact Nat.lt_irrefl _ (Nat.lt_of_lt_of_le (lt_of_isHeld (h.held id hother)) (hnew id hid))
  · intro id hid
    rcases List.mem_append.mp hid with hid | hid
    · exact hy.isHeld h.sound id hid
    · have hheld := h.held id hid
      rwa [hevolves.isHeld_eq h.sound List.not_mem_nil (lt_of_isHeld hheld)]
  · intro id hid
    rw [List.mem_append]
    rcases hy.isWaiting h.sound hid with hwaiting | hnew
    · exact .inr (h.covers id hwaiting)
    · exact .inl hnew

/-- Waiters that are let go, and do not wait any more, leave the accounts. -/
theorem Accounts.evolves (h : Accounts (mine ++ others) x) (hy : Evolves reason mine x y)
    (hwanes : x.Wanes y) (hfreed : ∀ id ∈ mine, y.isWaiting id = false) : Accounts others y := by
  obtain ⟨-, hnodup, hdisjoint⟩ := List.nodup_append'.mp h.nodup
  refine ⟨hy.sound h.sound, hnodup, ?_, ?_⟩
  · intro id hid
    have hheld := h.held id (List.mem_append_right mine hid)
    have hother : id ∉ mine := by
      intro hmem
      exact hdisjoint hmem hid
    rwa [hy.isHeld_eq h.sound hother (lt_of_isHeld hheld)]
  · intro id hid
    rcases List.mem_append.mp (h.covers id (hwanes id hid)) with hmine | hother
    · rw [hfreed id hmine] at hid
      cases hid
    · exact hother

theorem Accounts.letsGo (h : Accounts (mine ++ others) x) (hy : LetsGo mine x y)
    (hfreed : ∀ id ∈ mine, y.isWaiting id = false) : Accounts others y := by
  have hevolves : Evolves "" mine x y := .letGo hy
  exact h.evolves hevolves hy.wanes hfreed

/-- While nobody is let go the accounts stay as they are. -/
theorem Accounts.keeps (h : Accounts ids x) (hy : Evolves reason [] x y) (hwanes : x.Wanes y) :
    Accounts ids y := by
  have hall : Accounts ([] ++ ids) x := h
  exact hall.evolves hy hwanes (by simp)

/-- What a change that keeps the accounts leaves of the slots. -/
theorem Accounts.givesUp (h : Accounts (mine ++ others) x) (h' : Accounts others y)
    (hwanes : x.Wanes y) (hevent : ∀ id < x.mailboxes.length, y.eventOf id = x.eventOf id) :
    GivesUp mine x y := by
  obtain ⟨-, -, hdisjoint⟩ := List.nodup_append'.mp h.nodup
  refine ⟨?_, ?_, ?_⟩
  · intro tag id hid
    rw [h'.sound.queue_eq, mem_waitingFor] at hid
    have hwaiting := hwanes id hid.1
    rw [h.sound.queue_eq, mem_waitingFor, ← hevent id (lt_of_isWaiting hwaiting)]
    exact ⟨hwaiting, hid.2⟩
  · intro tag id hid hmem
    exact hdisjoint hid (h'.mem_queue.mp hmem).1
  · intro tag id hid hother
    obtain ⟨hmem, -, htag⟩ := h.mem_queue.mp hid
    have hmem := (List.mem_append.mp hmem).resolve_left hother
    have hlt := lt_of_isHeld (h.held id (List.mem_append_right mine hmem))
    cases hgiven : y.outcome? id with
    | some r => exact .inr ⟨r, rfl⟩
    | none => exact .inl (h'.mem_queue.mpr ⟨hmem, hgiven, (hevent id hlt).trans htag⟩)

end Exchange

/-! ### Calls -/

/-- The waiters of a call that goes on. -/
def Poll.waiters : Poll → List Nat
  | .pending call => call.waiters
  | .finished _ => []

namespace Connection

open Exchange

variable {c c' : Connection} {ids others : List Nat} {reason : String} {r : Poll × Connection}

section

variable (h : Accounts (ids ++ others) c.exchange)

include h

theorem accounts_of_polls (hpolls : Polls (Evolves reason) ids c r) (hfrees : Frees ids c r) :
    Accounts (r.1.waiters ++ others) r.2.exchange := by
  obtain ⟨poll, c'⟩ := r
  cases poll with
  | pending call =>
    -- the call holds what it held, and nobody was let go
    obtain ⟨hids, hchanges⟩ := hpolls.pending call rfl
    show Accounts (call.waiters ++ others) c'.exchange
    rw [hids]
    exact h.keeps hchanges.exchange hfrees.wanes
  | finished outcome =>
    exact h.evolves hpolls.changes.exchange hfrees.wanes (hfrees.finished outcome rfl)

theorem givesUp_of_polls {outcome : Outcome} (hpolls : Polls (Evolves reason) ids c r)
    (hfrees : Frees ids c r) (hr : r.1 = .finished outcome) :
    GivesUp ids c.exchange r.2.exchange := by
  have haccounts := accounts_of_polls h hpolls hfrees
  rw [hr] at haccounts
  refine h.givesUp haccounts hfrees.wanes ?_
  intro id hid
  exact hpolls.changes.exchange.eventOf_eq h.sound hid

end

section

variable {call : Call} (h : Accounts (call.waiters ++ others) c.exchange)

include h

theorem accounts_poll (hgone : c.isGone = false) (now : Nat) :
    Accounts ((call.poll c now).1.waiters ++ others) (call.poll c now).2.exchange :=
  accounts_of_polls h (polls_poll hgone call now) (frees_poll h.sound call now)

theorem givesUp_poll (hgone : c.isGone = false) {now : Nat} {outcome : Outcome}
    (hr : call.poll c now = (.finished outcome, c')) :
    GivesUp call.waiters c.exchange c'.exchange := by
  have hpolls := polls_poll hgone call now
  have hfrees := frees_poll h.sound call now
  rw [hr] at hpolls hfrees
  exact givesUp_of_polls h hpolls hfrees rfl

theorem accounts_drop : Accounts others (call.drop c).exchange := by
  have hletGo := (changes_drop call c).exchange
  exact h.letsGo hletGo (isWaiting_drop call c)

theorem givesUp_drop : GivesUp call.waiters c.exchange (call.drop c).exchange := by
  have hletGo := (changes_drop call c).exchange
  refine h.givesUp (accounts_drop h) hletGo.wanes ?_
  intro id _
  exact hletGo.keeps.eventOf id

end

/-- However a call ends, it gives up its waiters. -/
structure EndsClean (c : Connection) (call : Call) : Prop where
  polled : ∀ now outcome c', call.poll c now = (.finished outcome, c') →
    GivesUp call.waiters c.exchange c'.exchange
  dropped : GivesUp call.waiters c.exchange (call.drop c).exchange

theorem endsClean {call : Call} (h : Accounts (call.waiters ++ others) c.exchange)
    (hgone : c.isGone = false) : c.EndsClean call where
  polled _ _ _ hr := givesUp_poll h hgone hr
  dropped := givesUp_drop h

section

variable (h : Accounts others c.exchange)

include h

theorem accounts_first (hgone : c.isGone = false) {now : Nat} (hr : First c now r) :
    Accounts (r.1.waiters ++ others) r.2.exchange := by
  cases hr with
  | failed failure hregisters hletGo hfreed =>
    exact (h.registers hregisters.exchange).letsGo hletGo.exchange hfreed
  | polled call hregisters =>
    exact accounts_poll (h.registers hregisters.exchange) (hregisters.isGone.trans hgone) now

theorem accounts_close (now : Nat) :
    Accounts ((c.close now).1.waiters ++ others) (c.close now).2.exchange := by
  let closed := ({ c with cancelled := true }.closeFor closedLocally).joinTurns
  have hclosed : Accounts ((Call.close closed.1).waiters ++ others) closed.2.exchange :=
    h.keeps (.close (.refl _)) (wanes_close h.sound closedLocally)
  have hpolls : Polls (Evolves "") [] closed.2 ((Call.close closed.1).poll closed.2 now) :=
    .after_write ⟨.inl rfl, rfl, rfl⟩ (polls_close closed.2 closed.1 now)
  exact accounts_of_polls hclosed hpolls (frees_poll hclosed.sound (.close closed.1) now)

/-- A call that ends when it is polled for the first time leaves no slot. -/
theorem givesUp_of_begins {outcome : Outcome} (hr : r.1 = .finished outcome)
    (hbegins : Begins reason c r) (hopens : Opens c r)
    (haccounts : Accounts (r.1.waiters ++ others) r.2.exchange) :
    GivesUp [] c.exchange r.2.exchange := by
  rw [hr] at haccounts
  obtain ⟨ids, -, hchanges⟩ := hbegins.changes
  have hall : Accounts ([] ++ others) c.exchange := h
  refine hall.givesUp haccounts ?_ ?_
  · intro id hid
    rcases hopens id hid with hwaiting | ⟨call, hcall, -⟩
    · exact hwaiting
    · rw [hr] at hcall
      cases hcall
  · intro id hid
    exact hchanges.exchange.eventOf_eq h.sound hid

theorem givesUp_of_first (hgone : c.isGone = false) {now : Nat} {outcome : Outcome}
    (hfirst : First c now r) (hr : r.1 = .finished outcome) :
    GivesUp [] c.exchange r.2.exchange :=
  givesUp_of_begins h hr (begins_of_first h.sound hgone now hfirst)
    (opens_of_first h.sound hgone hfirst) (accounts_first h hgone hfirst)

theorem givesUp_close {now : Nat} {outcome : Outcome} (hr : (c.close now).1 = .finished outcome) :
    GivesUp [] c.exchange (c.close now).2.exchange :=
  givesUp_of_begins h hr (begins_close h.sound now) (opens_close h.sound now) (accounts_close h now)

theorem accounts_readerStep (hstep : c.readerStep = some c') : Accounts others c'.exchange := by
  have htakes := (takes_readerStep hstep).1
  exact h.keeps htakes.evolves (htakes.wanes h.sound)

end

end Connection

end EnvelopeClient
