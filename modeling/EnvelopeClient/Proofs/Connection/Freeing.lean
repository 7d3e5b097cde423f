import EnvelopeClient.Proofs.Connection.Calls

/-!
# What a call leaves behind

A call that has ended, or has been dropped, has nobody waiting for it any more (`frees_poll`,
`isWaiting_drop`), and nobody begins to wait but the waiters of a call that begins and goes on
(`Opens`). Together with what a call must not touch, this says where the waiters of an exchange are.
-/

namespace EnvelopeClient

namespace Exchange

variable {x y z : Exchange} {ids : List Nat} {reason : String}

/-- Nobody begins to wait. -/
def Wanes (x y : Exchange) : Prop := ∀ id, y.isWaiting id = true → x.isWaiting id = true

theorem Wanes.refl (x : Exchange) : x.Wanes x := fun _ h => h

theorem Wanes.trans (h : x.Wanes y) (h' : y.Wanes z) : x.Wanes z := fun id hid => h id (h' id hid)

theorem wanes_withMailbox {f : Mailbox → Mailbox} (hf : ∀ box, (f box).isWaiting = false)
    (registry : Registry) (id : Nat) : x.Wanes (x.withMailbox registry id f) := by
  intro other hother
  rw [isWaiting_withMailbox hf, Bool.and_eq_true] at hother
  exact hother.1

theorem LetsGo.wanes (h : LetsGo ids x y) : x.Wanes y := by
  induction h with
  | refl x => exact .refl x
  | cancel _ _ ih => exact (wanes_withMailbox isWaiting_released _ _).trans ih
  | settle _ _ _ ih => exact (wanes_withMailbox isWaiting_released _ _).trans ih

theorem wanes_deliver (hx : x.Sound) (e : Envelope) : x.Wanes (x.deliver e).2 := by
  cases hq : x.waitingFor e.event with
  | nil =>
    rw [deliver_of_nil hx hq]
    exact .refl x
  | cons id rest =>
    rw [deliver_of_cons hx hq]
    exact wanes_withMailbox (isWaiting_answered _) _ _

theorem wanes_close (hx : x.Sound) (reason : String) : x.Wanes (x.close reason) := by
  intro id hid
  rw [isWaiting_close hx] at hid
  cases hid

theorem Takes.wanes (h : Takes reason x y) (hx : x.Sound) : x.Wanes y := by
  cases h with
  | nothing => exact .refl x
  | message e => exact wanes_deliver hx e
  | close => exact wanes_close hx reason

/-- Those who wait behind registrations waited before, or are new. -/
theorem Registers.isWaiting (h : Registers ids x y) (hx : x.Sound) {id : Nat}
    (hid : y.isWaiting id = true) : x.isWaiting id = true ∨ id ∈ ids := by
  induction h with
  | nil x => exact .inl hid
  | @cons x y z event first ids hregister hrest ih =>
    rcases ih (hx.register hregister) hid with hwaiting | hnew
    · obtain ⟨-, rfl, registry, rfl, -⟩ := register_cases hx hregister
      rw [isWaiting_extended] at hwaiting
      split at hwaiting
      · next heq => exact .inr (heq ▸ List.mem_cons_self)
      · exact .inl hwaiting
    · exact .inr (List.mem_cons_of_mem _ hnew)

end Exchange

namespace Connection

open Exchange

variable {c c' : Connection} {ids : List Nat} {reason : String} {r : Poll × Connection}

theorem Closes.wanes {x y : Exchange} (h : Closes reason x y) (hx : x.Sound) : x.Wanes y := by
  rcases h with rfl | rfl
  · exact .refl _
  · exact wanes_close hx reason

/-- Dropping a call leaves nobody of it waiting. -/
theorem isWaiting_drop (call : Call) (c : Connection) :
    ∀ id ∈ call.waiters, (call.drop c).exchange.isWaiting id = false := by
  intro id hid
  cases call with
  | receive waiter deadline keeps =>
    obtain rfl : id = waiter := by simpa [Call.waiters] using hid
    rw [Call.drop, isWaiting_dropWaiter]
    simp
  | send s => cases hid
  | request waiter s =>
    obtain rfl : id = waiter := by simpa [Call.waiters] using hid
    rw [Call.drop, isWaiting_dropWaiter]
    simp
  | close turn => cases hid
  | ask reply error s limit => exact isWaiting_dropWaiters _ error reply id hid
  | hear event reply error deadline => exact isWaiting_dropWaiters _ error reply id hid

/-! ### Polling -/

/-- What a poll of a call with the waiters `ids` leaves behind. -/
structure Frees (ids : List Nat) (c : Connection) (r : Poll × Connection) : Prop where
  wanes : c.exchange.Wanes r.2.exchange
  finished : ∀ outcome, r.1 = .finished outcome → ∀ id ∈ ids, r.2.exchange.isWaiting id = false

theorem Frees.of_finished {outcome : Outcome} (hwanes : c.exchange.Wanes c'.exchange)
    (hfreed : ∀ id ∈ ids, c'.exchange.isWaiting id = false) :
    Frees ids c (.finished outcome, c') where
  wanes := hwanes
  finished _ _ := hfreed

theorem Frees.of_pending {call : Call} (hwanes : c.exchange.Wanes c'.exchange) :
    Frees ids c (.pending call, c') where
  wanes := hwanes
  finished outcome h := by cases h

theorem Frees.after_write (h : c.exchange.Wanes c'.exchange) (h' : Frees ids c' r) :
    Frees ids c r where
  wanes := h.trans h'.wanes
  finished := h'.finished

theorem frees_pollReceive (c : Connection) (now waiter : Nat) (deadline : Option Deadline)
    (keeps : Bool) : Frees [waiter] c (Call.pollReceive c now waiter deadline keeps) := by
  have hfreed : ∀ registry, ∀ id ∈ [waiter],
      (c.exchange.withMailbox registry waiter Exchange.released).isWaiting id = false := by
    intro registry id hid
    obtain rfl : id = waiter := by simpa using hid
    rw [isWaiting_withMailbox isWaiting_released]
    simp
  rw [Call.pollReceive]
  cases c.outcome? waiter with
  | some reply => exact .of_finished (wanes_withMailbox isWaiting_released _ _) (hfreed _)
  | none =>
    cases Call.isPast deadline now with
    | some d => exact .of_finished (wanes_withMailbox isWaiting_released _ _) (hfreed _)
    | none => exact .of_pending (.refl _)

theorem frees_pollHear (c : Connection) (now : Nat) (event : String) (reply : Nat)
    (error : Option Nat) (deadline : Option Deadline) :
    Frees (reply :: error.toList) c (Call.pollHear c now event reply error deadline) := by
  have hwanes := (changes_dropWaiters c error reply).exchange.wanes
  have hfreed := isWaiting_dropWaiters c error reply
  rw [Call.pollHear]
  cases Call.verdict? (c.outcome? reply) (error.bind c.outcome?) with
  | some answer => exact .of_finished hwanes hfreed
  | none =>
    cases Call.isPast deadline now with
    | some d => exact .of_finished hwanes hfreed
    | none => exact .of_pending (.refl _)

/-- A poll that ends a call leaves nobody of it waiting, and no poll makes anybody wait. -/
theorem frees_poll (hsound : c.exchange.Sound) (call : Call) (now : Nat) :
    Frees call.waiters c (call.poll c now) := by
  cases call with
  | receive waiter deadline keeps => exact frees_pollReceive c now waiter deadline keeps
  | send s =>
    have hwrite := (changes_pollSend c s).exchange.wanes hsound
    rw [Call.poll]
    cases hsend : c.pollSend s with
    | mk result c' =>
      rw [hsend] at hwrite
      cases result with
      | pending s' => exact .of_pending hwrite
      | finished result => cases result <;> exact .of_finished hwrite (by simp [Call.waiters])
  | request waiter s =>
    have hwrite := (changes_pollSend c s).exchange.wanes hsound
    rw [Call.poll]
    cases hsend : c.pollSend s with
    | mk result c' =>
      rw [hsend] at hwrite
      cases result with
      | pending s' => exact .of_pending hwrite
      | finished result =>
        cases result with
        | ok _ => exact .after_write hwrite (frees_pollReceive c' now waiter none true)
        | error failure =>
          refine .after_write hwrite (.of_finished (wanes_withMailbox isWaiting_released _ _) ?_)
          exact isWaiting_drop (.receive waiter none true) c'
  | close turn =>
    rw [Call.poll]
    split
    · exact .of_finished (.refl _) (by simp [Call.waiters])
    · exact .of_pending (.refl _)
  | ask reply error s limit =>
    have hwrite := (changes_pollSend c s).exchange.wanes hsound
    rw [Call.poll]
    cases hsend : c.pollSend s with
    | mk result c' =>
      rw [hsend] at hwrite
      cases result with
      | pending s' => exact .of_pending hwrite
      | finished result =>
        cases result with
        | ok _ => exact .after_write hwrite (frees_pollHear c' now s.event reply error _)
        | error failure =>
          exact .after_write hwrite (.of_finished (changes_dropWaiters c' error reply).exchange.wanes
            (isWaiting_dropWaiters c' error reply))
  | hear event reply error deadline => exact frees_pollHear c now event reply error deadline

/-! ### Beginning a call -/

/-- Whoever waits behind the first poll of a call waited before, or belongs to the call, which goes
on. -/
def Opens (c : Connection) (r : Poll × Connection) : Prop :=
  ∀ id, r.2.exchange.isWaiting id = true →
    c.exchange.isWaiting id = true ∨ ∃ call, r.1 = .pending call ∧ id ∈ call.waiters

theorem opens_of_frees {P : List Nat → Exchange → Exchange → Prop} (hsound : c.exchange.Sound)
    (h : Changes (Registers ids) c c') (hpolls : Polls P ids c' r) (hfrees : Frees ids c' r) :
    Opens c r := by
  intro id hid
  rcases h.exchange.isWaiting hsound (hfrees.wanes id hid) with hwaiting | hnew
  · exact .inl hwaiting
  · -- it is new, so the call has not ended
    obtain ⟨poll, c''⟩ := r
    cases poll with
    | pending call => exact .inr ⟨call, rfl, (hpolls.pending call rfl).1 ▸ hnew⟩
    | finished outcome =>
      rw [hfrees.finished outcome rfl id hnew] at hid
      cases hid

theorem opens_of_first (hsound : c.exchange.Sound) (hgone : c.isGone = false) {now : Nat}
    (h : First c now r) : Opens c r := by
  cases h with
  | failed failure h h' hfreed =>
    exact opens_of_frees hsound h (.of_finished h') (.of_finished h'.exchange.wanes hfreed)
  | polled call h =>
    exact opens_of_frees hsound h (polls_poll (h.isGone.trans hgone) call now)
      (frees_poll (h.exchange.sound hsound) call now)

theorem opens_close (hsound : c.exchange.Sound) (now : Nat) : Opens c (c.close now) := by
  -- a close leaves nobody waiting, and the call that closes waits for nothing but its turn
  let closed := ({ c with cancelled := true }.closeFor closedLocally).joinTurns
  intro id hid
  have hsound' : closed.2.exchange.Sound := hsound.close closedLocally
  have hpoll := (frees_poll hsound' (.close closed.1) now).wanes id hid
  exact .inl (wanes_close hsound closedLocally id hpoll)

end Connection

end EnvelopeClient
