import EnvelopeClient.Proofs.Connection.Freeing
import Mathlib.Logic.Relation

/-!
# Waiters that leave empty-handed

A waiter whose time is up leaves its place and takes nothing with it (`Exchange.Withdraws`): what
the others were given stays, and they keep their order. From then on every message goes past it, to
the oldest waiter of its tag that is still there, or to nobody (`Exchange.PassesOver`). That lasts:
a waiter that waits no more is given nothing, whatever the exchange leads to (`LeadsTo.departed`).
-/

namespace EnvelopeClient

namespace Exchange

/-- One exchange leads to another, by one change after the other. -/
def LeadsTo : Exchange → Exchange → Prop :=
  Relation.ReflTransGen fun x y => ∃ reason ids, Evolves reason ids x y

/-- These waiters were registered, wait no more, and were given nothing. -/
def Departed (ids : List Nat) (x : Exchange) : Prop :=
  ∀ id ∈ ids, id < x.mailboxes.length ∧ x.isWaiting id = false ∧ x.outcome? id = none

/-- Some waiters give up their places. Nobody is given anything or loses it, and those who still
wait keep their order. -/
structure Withdraws (ids : List Nat) (x y : Exchange) : Prop where
  outcome? : ∀ id, y.outcome? id = x.outcome? id
  waitingFor : ∀ tag, y.waitingFor tag = (x.waitingFor tag).filter (· ∉ ids)

/-- Messages go past these waiters, which have been given nothing and have no place: each goes to
the oldest waiter of its tag that is still there, and if there is none it is dropped. -/
structure PassesOver (ids : List Nat) (x : Exchange) : Prop where
  outcome? : ∀ id ∈ ids, x.outcome? id = none
  places : ∀ tag, x.registry.queue tag = x.waitingFor tag ∧ ∀ id ∈ ids, id ∉ x.waitingFor tag
  dropped : ∀ e : Envelope, x.waitingFor e.event = [] → x.deliver e = (false, x)
  handed : ∀ (e : Envelope) next rest, x.waitingFor e.event = next :: rest →
    (x.deliver e).1 = true ∧ (x.deliver e).2.outcome? next = some (.ok e.data) ∧
      ∀ other ≠ next, (x.deliver e).2.outcome? other = x.outcome? other

variable {x y z : Exchange} {ids ids' : List Nat} {id : Nat} {reason : String}

/-! ### What lasts -/

/-- Whoever does not wait is given nothing, and never waits again. -/
theorem Evolves.of_not_waiting (h : Evolves reason ids x y) (hx : x.Sound)
    (hlt : id < x.mailboxes.length) (hid : x.isWaiting id = false) :
    y.isWaiting id = false ∧ y.outcome? id = x.outcome? id := by
  have hstays : ∀ {x y : Exchange}, x.Wanes y → x.isWaiting id = false →
      y.isWaiting id = false := by
    intro x y hwanes hid
    cases hy : y.isWaiting id with
    | false => rfl
    | true =>
      rw [hwanes id hy] at hid
      cases hid
  induction h with
  | letGo h => exact ⟨hstays h.wanes hid, h.keeps.outcome? id⟩
  | deliver e h =>
    refine ⟨hstays ((wanes_deliver hx e).trans h.wanes) hid, ?_⟩
    rw [h.keeps.outcome?]
    rcases outcome?_deliver hx e id with hsame | ⟨hwaiting, -⟩
    · exact hsame
    · rw [hid] at hwaiting
      cases hwaiting
  | close h =>
    refine ⟨hstays ((wanes_close hx _).trans h.wanes) hid, ?_⟩
    rw [h.keeps.outcome?, outcome?_close hx, hid]
    rfl
  | @register x y z event new hregister _ ih =>
    have hlength := length_register hx hregister
    have hwaiting : y.isWaiting id = false := by
      obtain ⟨-, -, registry, rfl, -⟩ := register_cases hx hregister
      rwa [isWaiting_extended, if_neg (Nat.ne_of_lt hlt)]
    obtain ⟨hid', hsame⟩ := ih (hx.register hregister) (by omega) hwaiting
    exact ⟨hid', hsame.trans (outcome?_register hx hregister id)⟩

namespace LeadsTo

theorem refl (x : Exchange) : LeadsTo x x := Relation.ReflTransGen.refl

theorem trans (h : LeadsTo x y) (h' : LeadsTo y z) : LeadsTo x z := Relation.ReflTransGen.trans h h'

theorem of_evolves (h : Evolves reason ids x y) : LeadsTo x y :=
  Relation.ReflTransGen.single ⟨reason, ids, h⟩

theorem sound (h : LeadsTo x y) (hx : x.Sound) : y.Sound := by
  induction h with
  | refl => exact hx
  | tail _ hstep ih =>
    obtain ⟨reason, ids, hevolves⟩ := hstep
    exact hevolves.sound ih

theorem proper (h : LeadsTo x y) (hx : x.Sound) (hproper : x.Proper) : y.Proper := by
  induction h with
  | refl => exact hproper
  | tail hbefore hstep ih =>
    obtain ⟨reason, ids, hevolves⟩ := hstep
    exact hevolves.proper (sound hbefore hx) ih

theorem failsClosed (h : LeadsTo x y) (hx : x.Sound) (hclosed : x.FailsClosed) : y.FailsClosed := by
  induction h with
  | refl => exact hclosed
  | tail hbefore hstep ih =>
    obtain ⟨reason, ids, hevolves⟩ := hstep
    exact hevolves.failsClosed (sound hbefore hx) ih

theorem length_le (h : LeadsTo x y) (hx : x.Sound) : x.mailboxes.length ≤ y.mailboxes.length := by
  induction h with
  | refl => exact Nat.le_refl _
  | tail hbefore hstep ih =>
    obtain ⟨reason, ids, hevolves⟩ := hstep
    exact Nat.le_trans ih (hevolves.length_le (sound hbefore hx))

/-- Every waiter keeps its tag. -/
theorem eventOf_eq (h : LeadsTo x y) (hx : x.Sound) (hlt : id < x.mailboxes.length) :
    y.eventOf id = x.eventOf id := by
  induction h with
  | refl => rfl
  | tail hbefore hstep ih =>
    obtain ⟨reason, ids, hevolves⟩ := hstep
    have hlt' := Nat.lt_of_lt_of_le hlt (length_le hbefore hx)
    exact (hevolves.eventOf_eq (sound hbefore hx) hlt').trans ih

/-- What was given stays. -/
theorem outcome? (h : LeadsTo x y) (hx : x.Sound) {r : Reply} (hr : x.outcome? id = some r) :
    y.outcome? id = some r := by
  induction h with
  | refl => exact hr
  | tail hbefore hstep ih =>
    obtain ⟨reason, ids, hevolves⟩ := hstep
    exact hevolves.outcome?_eq (sound hbefore hx) ih

/-- Whoever has nothing now never had anything. -/
theorem outcome?_eq_none (h : LeadsTo x y) (hx : x.Sound) (hnone : y.outcome? id = none) :
    x.outcome? id = none := by
  cases hgiven : x.outcome? id with
  | none => rfl
  | some r =>
    rw [h.outcome? hx hgiven] at hnone
    cases hnone

/-- Who has left has left for good. -/
theorem departed (h : LeadsTo x y) (hx : x.Sound) (hids : Departed ids x) : Departed ids y := by
  induction h with
  | refl => exact hids
  | tail hbefore hstep ih =>
    obtain ⟨reason, lets, hevolves⟩ := hstep
    have hsound := sound hbefore hx
    intro id hid
    obtain ⟨hlt, hwaiting, hnone⟩ := ih id hid
    obtain ⟨hwaiting', hsame⟩ := hevolves.of_not_waiting hsound hlt hwaiting
    exact ⟨Nat.lt_of_lt_of_le hlt (hevolves.length_le hsound), hwaiting', hsame.trans hnone⟩

end LeadsTo

theorem Departed.passesOver (h : Departed ids x) (hx : x.Sound) : x.PassesOver ids where
  outcome? id hid := (h id hid).2.2
  places tag := by
    refine ⟨hx.queue_eq tag, ?_⟩
    intro id hid hmem
    have hwaiting := (mem_waitingFor.mp hmem).1
    rw [(h id hid).2.1] at hwaiting
    cases hwaiting
  dropped e := deliver_of_nil hx
  handed e next rest hq := by
    have hwaiting : x.isWaiting next = true := (mem_waitingFor.mp (hq ▸ List.mem_cons_self)).1
    rw [deliver_of_cons hx hq]
    refine ⟨rfl, ?_, ?_⟩
    · rw [outcome?_withMailbox, if_pos rfl, List.getElem?_eq_getElem (lt_of_isWaiting hwaiting)]
      rfl
    · intro other hother
      rw [outcome?_withMailbox, if_neg hother]

/-! ### Leaving -/

theorem withdraws_cancel (x : Exchange) (id : Nat) : Withdraws [id] x (x.cancel id) where
  outcome? := (keeps_cancel x id).outcome?
  waitingFor tag := by
    rw [cancel_eq, waitingFor_withMailbox event_released isWaiting_released]
    refine List.filter_congr ?_
    intro other _
    simp

theorem Withdraws.trans (h : Withdraws ids x y) (h' : Withdraws ids' y z) :
    Withdraws (ids' ++ ids) x z where
  outcome? id := (h'.outcome? id).trans (h.outcome? id)
  waitingFor tag := by
    rw [h'.waitingFor, h.waitingFor, List.filter_filter]
    refine List.filter_congr ?_
    intro other _
    simp [List.mem_append]

end Exchange

namespace Connection

open Exchange

variable {c : Connection} {waiter reply : Nat} {error : Option Nat}

/-- Both waiters of a client's request leave at once. -/
theorem withdraws_dropWaiters (c : Connection) (error : Option Nat) (reply : Nat) :
    Withdraws (reply :: error.toList) c.exchange
      ((c.dropWaiter? error).dropWaiter reply).exchange := by
  cases error with
  | none => exact withdraws_cancel c.exchange reply
  | some id => exact (withdraws_cancel c.exchange id).trans (withdraws_cancel _ reply)

theorem departed_dropWaiter (hheld : c.exchange.isHeld waiter = true)
    (hnone : c.exchange.outcome? waiter = none) :
    Departed [waiter] (c.dropWaiter waiter).exchange := by
  intro id hid
  obtain rfl := List.mem_singleton.mp hid
  have hkeeps := keeps_cancel c.exchange id
  refine ⟨?_, ?_, (hkeeps.outcome? id).trans hnone⟩
  · rw [dropWaiter, hkeeps.length]
    exact lt_of_isHeld hheld
  · rw [isWaiting_dropWaiter]
    simp

theorem departed_dropWaiters (hheld : ∀ id ∈ reply :: error.toList, c.exchange.isHeld id = true)
    (hnone : ∀ id ∈ reply :: error.toList, c.exchange.outcome? id = none) :
    Departed (reply :: error.toList) ((c.dropWaiter? error).dropWaiter reply).exchange := by
  intro id hid
  have hkeeps := (changes_dropWaiters c error reply).exchange.keeps
  refine ⟨?_, isWaiting_dropWaiters c error reply id hid, (hkeeps.outcome? id).trans (hnone id hid)⟩
  rw [hkeeps.length]
  exact lt_of_isHeld (hheld id hid)

end Connection

end EnvelopeClient
