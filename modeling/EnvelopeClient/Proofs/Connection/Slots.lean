import EnvelopeClient.Proofs.Connection.Accounts

/-!
# The slots of a session

In every run of a session the slots of the registry are those of the handles its callers keep
(`Session.slots_run`): every unfinished call has as many as its kind says, and nobody else has any.
-/

namespace EnvelopeClient

open Exchange

/-- How many waiters a handle stands for. -/
def Handle.slots : Handle → Nat
  | .waiter _ => 1
  | .call c => c.slots

namespace Session

open Connection

/-- Every name stands for one handle, and every handle for the waiters it should. -/
structure Filed (handles : List (String × Handle)) : Prop where
  names : (handles.map Prod.fst).Nodup
  slots : ∀ p ∈ handles, p.2.waiters.length = p.2.slots

/-- The slots of a session are those of its handles. -/
structure Orderly (s : Session) : Prop where
  filed : Filed s.handles
  accounts : Accounts (waitersOf s.handles) s.connection.exchange

variable {handles : List (String × Handle)} {name : String} {handle : Handle} {s : Session}
  {r : Poll × Connection}

theorem Filed.sublist (h : Filed handles) {others : List (String × Handle)}
    (hothers : others.Sublist handles) : Filed others where
  names := h.names.sublist (hothers.map _)
  slots p hp := h.slots p (hothers.subset hp)

theorem Filed.append (h : Filed handles) (hname : ∀ p ∈ handles, p.1 ≠ name)
    (hslots : handle.waiters.length = handle.slots) : Filed (handles ++ [(name, handle)]) where
  names := by
    rw [List.map_append, List.nodup_append']
    refine ⟨h.names, List.nodup_singleton name, ?_⟩
    intro other hother hmem
    obtain ⟨p, hp, rfl⟩ := List.mem_map.mp hother
    exact hname p hp (List.mem_singleton.mp hmem)
  slots p hp := by
    rcases List.mem_append.mp hp with hp | hp
    · exact h.slots p hp
    · obtain rfl := List.mem_singleton.mp hp
      exact hslots

theorem waitersOf_append (handles : List (String × Handle)) (name : String) (handle : Handle) :
    waitersOf (handles ++ [(name, handle)]) = waitersOf handles ++ handle.waiters := by
  simp [waitersOf]

/-- The waiters of a handle, and those of all others. -/
theorem Filed.perm (h : Filed handles) (hlookup : handles.lookup name = some handle) :
    (waitersOf handles).Perm (handle.waiters ++ waitersOf (handles.filter (·.1 ≠ name))) :=
  (perm_cons_filter h.names (mem_of_lookup hlookup)).flatMap_right _

theorem filter_of_lookup (hlookup : handles.lookup name = none) :
    handles.filter (·.1 ≠ name) = handles := by
  refine List.filter_eq_self.mpr ?_
  intro p hp
  have hne : name ≠ p.1 := by simpa using List.lookup_eq_none_iff.mp hlookup p hp
  simpa using hne.symm

theorem accounts_dropHandle {others : List Nat} {c : Connection}
    (h : Accounts (handle.waiters ++ others) c.exchange) :
    Accounts others (dropHandle c handle).exchange := by
  cases handle with
  | waiter id =>
    have hcall : Accounts ((Call.receive id none true).waiters ++ others) c.exchange := h
    exact accounts_drop hcall
  | call call => exact accounts_drop h

/-- A handle with waiters of its own is put under a name. -/
theorem orderly_put (hfiled : Filed s.handles)
    (h : Accounts (handle.waiters ++ waitersOf s.handles) s.connection.exchange)
    (hslots : handle.waiters.length = handle.slots) : (s.put name handle).Orderly := by
  have hothers : Filed (s.handles.filter (·.1 ≠ name)) := hfiled.sublist List.filter_sublist
  refine ⟨?_, ?_⟩
  · rw [handles_put]
    refine hothers.append ?_ hslots
    intro p hp
    simpa using (List.mem_filter.mp hp).2
  · rw [handles_put, waitersOf_append, put, take]
    refine Accounts.perm ?_ List.perm_append_comm
    cases hlookup : s.handles.lookup name with
    | none =>
      rw [filter_of_lookup hlookup]
      exact h
    | some old =>
      -- the waiters of the handle that was there are dropped
      refine accounts_dropHandle (h.perm ?_)
      refine ((hfiled.perm hlookup).append_left handle.waiters).trans ?_
      rw [← List.append_assoc, ← List.append_assoc]
      exact List.perm_append_comm.append_right _

/-- A poll is answered, and a call that goes on is kept. -/
theorem orderly_answerPoll (hfiled : Filed s.handles)
    (h : Accounts (r.1.waiters ++ waitersOf s.handles) r.2.exchange)
    (hslots : ∀ call, r.1 = .pending call → call.waiters.length = call.slots) :
    (s.answerPoll name r).2.Orderly := by
  obtain ⟨poll, c⟩ := r
  cases poll with
  | finished outcome => exact ⟨hfiled, h⟩
  | pending call => exact orderly_put (s := { s with connection := c }) hfiled h (hslots call rfl)

/-! ### Actions -/

/-- What concerns neither handles nor waiters. -/
theorem Orderly.of_eq (h : s.Orderly) {t : Session} (hhandles : t.handles = s.handles)
    (hexchange : t.connection.exchange = s.connection.exchange) : t.Orderly where
  filed := hhandles ▸ h.filed
  accounts := by
    rw [hhandles, hexchange]
    exact h.accounts

theorem Orderly.withConnection (h : s.Orderly) {action : Connection → Answer × Session}
    (haction : (action s.connection).2.Orderly) : (s.withConnection action).2.Orderly := by
  unfold Session.withConnection
  split
  · exact haction
  · exact h

theorem Orderly.take_none (h : s.Orderly) (hlookup : s.handles.lookup name = none) :
    (s.take name).2.Orderly :=
  h.of_eq (filter_of_lookup hlookup) rfl

/-- Taking a handle out leaves the accounts of all others beside its own. -/
theorem Orderly.take (h : s.Orderly) (hlookup : s.handles.lookup name = some handle) :
    Filed (s.take name).2.handles ∧
      Accounts (handle.waiters ++ waitersOf (s.take name).2.handles) s.connection.exchange :=
  ⟨h.filed.sublist List.filter_sublist, h.accounts.perm (h.filed.perm hlookup)⟩

theorem Orderly.drop (h : s.Orderly) (hlookup : s.handles.lookup name = some handle) :
    ({ (s.take name).2 with connection := dropHandle s.connection handle } : Session).Orderly := by
  obtain ⟨hfiled, haccounts⟩ := h.take hlookup
  exact ⟨hfiled, accounts_dropHandle haccounts⟩

section

variable (h : s.Orderly) (hgone : s.connection.isGone = false)

include h hgone

/-- A call with the waiters of a handle is polled. -/
theorem orderly_poll (hlookup : s.handles.lookup name = some handle) (call : Call)
    (hcall : call.waiters = handle.waiters) (hslots : call.waiters.length = call.slots) :
    ((s.take name).2.answerPoll name (call.poll s.connection s.now)).2.Orderly := by
  obtain ⟨hfiled, haccounts⟩ := h.take hlookup
  rw [← hcall] at haccounts
  refine orderly_answerPoll hfiled (accounts_poll haccounts hgone s.now) ?_
  intro call' hcall'
  exact length_poll hgone hslots hcall'

/-- A call begins. -/
theorem orderly_first (hr : First s.connection s.now r) : (s.answerPoll name r).2.Orderly := by
  refine orderly_answerPoll h.filed (accounts_first h.accounts hgone hr) ?_
  intro call hcall
  exact length_first hgone s.now hr hcall

theorem orderly_act (action : Action) : (s.act action).2.Orderly := by
  cases action with
  | register name event =>
    refine h.withConnection ?_
    cases hregister : s.connection.register event with
    | error failure => exact h
    | ok result =>
      have hregisters := (changes_register hregister).exchange
      exact orderly_put (s := { s with connection := result.2 }) h.filed
        (h.accounts.registers hregisters) rfl
  | receive name limit =>
    rw [act]
    cases hlookup : s.handles.lookup name with
    | none =>
      simp only [Session.take, hlookup]
      exact h.take_none hlookup
    | some handle =>
      cases handle with
      | waiter id =>
        simp only [Session.take, hlookup]
        exact orderly_poll h hgone hlookup (.receive id _ false) rfl rfl
      | call call =>
        simp only [Session.take, hlookup]
        exact orderly_poll h hgone hlookup call rfl (h.filed.slots _ (mem_of_lookup hlookup))
  | drop name =>
    rw [act]
    cases hlookup : s.handles.lookup name with
    | none =>
      simp only [Session.take, hlookup]
      exact h.take_none hlookup
    | some handle =>
      simp only [Session.take, hlookup]
      exact h.drop hlookup
  | awaitOnce name event =>
    exact h.withConnection (orderly_first h hgone (first_awaitOnce _ _ event))
  | request name event payload =>
    exact h.withConnection (orderly_first h hgone (first_request _ _ event payload))
  | send name event payload =>
    exact h.withConnection (orderly_first h hgone (first_send _ _ event payload))
  | close name =>
    refine h.withConnection (orderly_answerPoll h.filed (accounts_close h.accounts s.now) ?_)
    intro call hcall
    exact length_close s.now hcall
  | peerWrite bytes =>
    rw [act]
    split
    · exact h
    · split
      · exact h
      · split <;> exact h.of_eq rfl rfl
  | peerRead =>
    rw [act]
    split <;> exact h.of_eq rfl rfl
  | trap operation trap => cases operation <;> exact h.of_eq rfl rfl
  | notices name =>
    rw [act]
    split <;> exact h.of_eq rfl rfl
  | status | describe | subscribe _ => exact h.withConnection (h.of_eq rfl rfl)
  | dropConnection | peerEnd | peerAbandon | peerClose | advance _ => exact h.of_eq rfl rfl

end

/-! ### Runs -/

theorem Orderly.letGo (h : s.Orderly) : s.letGo.Orderly := by
  refine h.of_eq ?_ (exchange_letGo s)
  rcases letGo_cases s with ⟨heq, -⟩ | ⟨heq, -⟩ <;> rw [heq]

/-- Every move of a session whose connection is not gone leaves it orderly. -/
theorem orderly_move (h : s.Orderly) (hgone : s.connection.isGone = false) (m : Move) :
    (s.move m).Orderly := by
  cases m with
  | act action => exact (orderly_act h hgone action).letGo
  | ask name event payload limit =>
    exact (h.withConnection (orderly_first h hgone (first_ask _ _ event payload limit))).letGo
  | reader =>
    rw [Session.move]
    cases hstep : s.connection.readerStep with
    | none => exact h.of_eq rfl rfl
    | some c => exact ⟨h.filed, accounts_readerStep h.accounts hstep⟩
  | abort => exact h.of_eq rfl rfl

theorem orderly_start (peer : String) (capacity : Option Nat) : (start peer capacity).Orderly where
  filed := ⟨List.nodup_nil, by simp [start]⟩
  accounts := accounts_opened

theorem orderly_run (hs : s.Sound) (h : s.connection.isGone = false → s.Orderly)
    (moves : List Move) (hgone : (s.run moves).connection.isGone = false) :
    (s.run moves).Orderly := by
  induction moves generalizing s with
  | nil => exact h hgone
  | cons m moves ih =>
    refine ih (hs.move m) ?_ hgone
    intro hmoved
    have hbefore := not_gone_of_move hs hmoved
    exact orderly_move (h hbefore) hbefore m

end Session

end EnvelopeClient
