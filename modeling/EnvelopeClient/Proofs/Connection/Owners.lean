import EnvelopeClient.Connection.Session
import EnvelopeClient.Proofs.Connection.Calls
import Mathlib.Data.List.Flatten
import Mathlib.Data.List.Nodup
import Mathlib.Data.List.Pairwise

/-!
# Who holds the waiters of a session

The waiters of a session belong to the handles its callers keep: each to one of them, and all of
them are held (`Session.Owns`). `act_goes` is what an action does while the connection is not gone:
the exchange evolves, and the handles own what they hold afterwards. Once the connection is gone
nothing is left to be given (`act_keeps`).
-/

namespace EnvelopeClient

/-- What is found under a key stands there. -/
theorem mem_of_lookup {α β : Type} [BEq α] [LawfulBEq α] {list : List (α × β)} {key : α} {value : β}
    (h : list.lookup key = some value) : (key, value) ∈ list := by
  obtain ⟨before, behind, rfl, -⟩ := List.lookup_eq_some_iff.mp h
  simp

/-- The waiters a handle stands for. -/
def Handle.waiters : Handle → List Nat
  | .waiter id => [id]
  | .call c => c.waiters

/-- Why a connection closes that an action closes: it was told to, or a write found the peer
gone. -/
def Action.closingReason : Action → String
  | .close _ => Connection.closedLocally
  | _ => Connection.peerWentAway

namespace Session

open Connection Exchange

/-- The waiters of handles. -/
def waitersOf (handles : List (String × Handle)) : List Nat := handles.flatMap (·.2.waiters)

/-- Every waiter of a handle is held, and belongs to no other handle. -/
structure Owns (handles : List (String × Handle)) (x : Exchange) : Prop where
  nodup : (waitersOf handles).Nodup
  held : ∀ id ∈ waitersOf handles, x.isHeld id = true

variable {handles : List (String × Handle)} {x y : Exchange} {name : String} {handle : Handle}
  {ids : List Nat} {reason : String}

theorem mem_waitersOf {id : Nat} (hhandle : (name, handle) ∈ handles) (hid : id ∈ handle.waiters) :
    id ∈ waitersOf handles :=
  List.mem_flatMap.mpr ⟨_, hhandle, hid⟩

theorem Owns.sublist (h : Owns handles x) {others : List (String × Handle)}
    (hothers : others.Sublist handles) : Owns others x := by
  have hsub := hothers.flatMap (·.2.waiters)
  refine ⟨h.nodup.sublist hsub, ?_⟩
  intro id hid
  exact h.held id (hsub.subset hid)

/-- Handles keep what they own when others are let go. -/
theorem Owns.evolves (h : Owns handles x) (hx : x.Sound) (hids : ∀ id ∈ ids, id ∉ waitersOf handles)
    (hy : Evolves reason ids x y) : Owns handles y := by
  refine ⟨h.nodup, ?_⟩
  intro id hid
  have hheld := h.held id hid
  have hother : id ∉ ids := by
    intro hmem
    exact hids id hmem hid
  rwa [hy.isHeld_eq hx hother (lt_of_isHeld hheld)]

/-- The handles of all other names do not share a waiter with this one. -/
theorem Owns.disjoint (h : Owns handles x) (hhandle : (name, handle) ∈ handles) :
    ∀ id ∈ handle.waiters, id ∉ waitersOf (handles.filter (·.1 ≠ name)) := by
  intro id hid hmem
  obtain ⟨other, hother, hid'⟩ := List.mem_flatMap.mp hmem
  obtain ⟨hmem', hne⟩ := List.mem_filter.mp hother
  -- no two handles share a waiter, and a handle of another name is another handle
  have hpairwise := (List.nodup_flatMap.mp h.nodup).2
  have hdistinct : (name, handle) ≠ other := by
    rintro rfl
    simp at hne
  have hsymm : Std.Symm (Function.onFun List.Disjoint fun h : String × Handle => h.2.waiters) :=
    ⟨fun _ _ h id hid hid' => h hid' hid⟩
  exact hpairwise.forall hhandle hmem' hdistinct hid hid'

theorem Owns.append (h : Owns handles x) (hnodup : handle.waiters.Nodup)
    (hheld : ∀ id ∈ handle.waiters, x.isHeld id = true)
    (hnew : ∀ id ∈ handle.waiters, id ∉ waitersOf handles) :
    Owns (handles ++ [(name, handle)]) x := by
  have heq : waitersOf (handles ++ [(name, handle)]) = waitersOf handles ++ handle.waiters := by
    simp [waitersOf]
  refine ⟨?_, ?_⟩
  · rw [heq, List.nodup_append']
    refine ⟨h.nodup, hnodup, ?_⟩
    intro id hid hid'
    exact hnew id hid' hid
  · intro id hid
    rw [heq] at hid
    exact (List.mem_append.mp hid).elim (h.held id) (hheld id)

/-! ### Handles that are dropped and put -/

theorem changes_dropHandle (c : Connection) (handle : Handle) :
    Changes (LetsGo handle.waiters) c (dropHandle c handle) := by
  cases handle with
  | waiter id => exact changes_dropWaiter (by simp [Handle.waiters])
  | call call => exact changes_drop call c

/-- What putting a handle does: the one that was there is dropped. -/
theorem changes_put (s : Session) (name : String) (handle : Handle) :
    ∃ ids, (∀ id ∈ ids, ∃ old, (name, old) ∈ s.handles ∧ id ∈ old.waiters) ∧
      Changes (LetsGo ids) s.connection (s.put name handle).connection := by
  rw [put, take]
  cases hlookup : s.handles.lookup name with
  | none => exact ⟨[], by simp, .refl _, rfl, rfl⟩
  | some old =>
    refine ⟨old.waiters, ?_, changes_dropHandle _ old⟩
    intro id hid
    exact ⟨old, mem_of_lookup hlookup, hid⟩

theorem handles_put (s : Session) (name : String) (handle : Handle) :
    (s.put name handle).handles = s.handles.filter (·.1 ≠ name) ++ [(name, handle)] := by
  rw [put, take]

/-- Putting a handle with waiters of its own leaves everything owned. -/
theorem Owns.put {s : Session} (h : Owns s.handles s.connection.exchange)
    (hx : s.connection.exchange.Sound) (hnodup : handle.waiters.Nodup)
    (hheld : ∀ id ∈ handle.waiters, s.connection.exchange.isHeld id = true)
    (hnew : ∀ id ∈ handle.waiters, id ∉ waitersOf s.handles) :
    Owns (s.put name handle).handles (s.put name handle).connection.exchange := by
  obtain ⟨ids, hids, hchanges⟩ := changes_put s name handle
  have hevolves : Evolves "" ids _ _ := .letGo hchanges.exchange
  have hsub : (s.handles.filter (·.1 ≠ name)).Sublist s.handles := List.filter_sublist
  -- the waiters let go are those of the handle that was there, which nobody else holds
  have hothers : ∀ id ∈ ids, id ∉ waitersOf (s.handles.filter (·.1 ≠ name)) := by
    intro id hid
    obtain ⟨old, hold, hid⟩ := hids id hid
    exact h.disjoint hold id hid
  have hown : ∀ id ∈ handle.waiters, id ∉ ids := by
    intro id hid hmem
    obtain ⟨old, hold, hid'⟩ := hids id hmem
    exact hnew id hid (mem_waitersOf hold hid')
  rw [handles_put]
  refine ((h.sublist hsub).evolves hx hothers hevolves).append hnodup ?_ ?_
  · intro id hid
    rw [hevolves.isHeld_eq hx (hown id hid) (lt_of_isHeld (hheld id hid))]
    exact hheld id hid
  · intro id hid hmem
    exact hnew id hid ((hsub.flatMap _).subset hmem)

/-! ### Answering with a poll -/

variable {s : Session} {r : Poll × Connection}

/-- What the answer to a poll does to the connection. -/
theorem changes_answerPoll (h : Changes (Evolves reason ids) s.connection r.2) :
    ∃ ids, Changes (Evolves reason ids) s.connection (s.answerPoll name r).2.connection := by
  obtain ⟨poll, c⟩ := r
  cases poll with
  | finished outcome => exact ⟨ids, h⟩
  | pending call =>
    obtain ⟨old, -, hput⟩ := changes_put { s with connection := c } name (.call call)
    have hall : Changes (LetsGo (ids ++ old)) c _ :=
      hput.imp fun h => h.mono (List.subset_append_right ids old)
    exact ⟨ids ++ old, (h.imp fun h => h.mono (List.subset_append_left ids old)).trans hall
      Evolves.then_letGo⟩

/-- A call that is kept has waiters of its own, and none of the others' are let go. -/
theorem owns_answerPoll (h : Owns s.handles s.connection.exchange)
    (hx : s.connection.exchange.Sound) (hr : Changes (Evolves reason ids) s.connection r.2)
    (hids : ∀ id ∈ ids, id ∉ waitersOf s.handles)
    (hpending : ∀ call, r.1 = .pending call → call.waiters.Nodup ∧
      ∀ id ∈ call.waiters, id ∉ waitersOf s.handles ∧ r.2.exchange.isHeld id = true) :
    Owns (s.answerPoll name r).2.handles (s.answerPoll name r).2.connection.exchange := by
  obtain ⟨poll, c⟩ := r
  have howns := h.evolves hx hids hr.exchange
  cases poll with
  | finished outcome => exact howns
  | pending call =>
    obtain ⟨hnodup, hcall⟩ := hpending call rfl
    exact Owns.put (s := { s with connection := c }) howns (hr.exchange.sound hx) hnodup
      (fun id hid => (hcall id hid).2) fun id hid => (hcall id hid).1

/-! ### Whether the connection is held -/

theorem isHeld_eq_false : s.isHeld = false ↔
    s.owned = false ∧ ∀ name call, (name, Handle.call call) ∈ s.handles → call.keeps = false := by
  rw [isHeld, Bool.or_eq_false_iff, List.any_eq_false]
  refine and_congr_right fun _ => ?_
  constructor
  · intro h name call hmem
    simpa using h _ hmem
  · rintro h ⟨name, handle⟩ hmem
    cases handle with
    | waiter id => simp
    | call call => simpa using h name call hmem

theorem isHeld_of_owned (h : s.owned = true) : s.isHeld = true := by simp [isHeld, h]

theorem isHeld_answerPoll (h : s.isHeld = false)
    (hkeeps : ∀ call, r.1 = .pending call → call.keeps = false) :
    (s.answerPoll name r).2.isHeld = false := by
  obtain ⟨howned, hcalls⟩ := isHeld_eq_false.mp h
  obtain ⟨poll, c⟩ := r
  cases poll with
  | finished outcome => exact isHeld_eq_false.mpr ⟨howned, hcalls⟩
  | pending call =>
    refine isHeld_eq_false.mpr ⟨howned, ?_⟩
    intro other call' hmem
    have hmem : _ ∈ (put { s with connection := c } name (.call call)).handles := hmem
    rw [handles_put] at hmem
    rcases List.mem_append.mp hmem with hmem | hmem
    · exact hcalls other call' (List.mem_filter.mp hmem).1
    · cases List.mem_singleton.mp hmem
      exact hkeeps call rfl

theorem isHeld_filter (h : s.isHeld = false) (p : String × Handle → Bool) :
    ({ s with handles := s.handles.filter p }).isHeld = false := by
  obtain ⟨howned, hcalls⟩ := isHeld_eq_false.mp h
  refine isHeld_eq_false.mpr ⟨howned, ?_⟩
  intro name call hmem
  exact hcalls name call (List.mem_filter.mp hmem).1

/-! ### Actions -/

/-- What an action does: the exchange evolves, every waiter still has one owner, and nobody takes up
a connection that was let go. -/
structure Goes (reason : String) (s t : Session) : Prop where
  changes : ∃ ids, Changes (Evolves reason ids) s.connection t.connection
  owns : Owns t.handles t.connection.exchange
  held : s.isHeld = false → t.isHeld = false

/-- An action that does not concern the waiters. -/
theorem goes_of_eq {t : Session} (h : Owns s.handles s.connection.exchange)
    (hchanges : Changes Eq s.connection t.connection) (hhandles : t.handles = s.handles)
    (howned : s.owned = false → t.owned = false) : Goes reason s t where
  changes := ⟨[], hchanges.exchange ▸ .refl _, hchanges.released, hchanges.reader⟩
  owns := by
    rw [hhandles, ← hchanges.exchange]
    exact h
  held hheld := by
    obtain ⟨hs, hcalls⟩ := isHeld_eq_false.mp hheld
    exact isHeld_eq_false.mpr ⟨howned hs, by rwa [hhandles]⟩

theorem goes_self (h : Owns s.handles s.connection.exchange) : Goes reason s s :=
  goes_of_eq h ⟨rfl, rfl, rfl⟩ rfl id

/-- An action that needs the connection. -/
theorem goes_withConnection (h : Owns s.handles s.connection.exchange)
    {action : Connection → Answer × Session}
    (haction : s.owned = true → Goes reason s (action s.connection).2) :
    Goes reason s (s.withConnection action).2 := by
  unfold withConnection
  split
  · next howned => exact haction howned
  · exact goes_self h

/-- An action that finds nothing under a name. -/
theorem goes_take (h : Owns s.handles s.connection.exchange) (name : String) :
    Goes reason s (s.take name).2 where
  changes := ⟨[], .refl _, rfl, rfl⟩
  owns := h.sublist List.filter_sublist
  held hheld := isHeld_filter hheld _

section

variable (h : Owns s.handles s.connection.exchange) (hx : s.connection.exchange.Sound)

include h hx

/-- A call that begins. -/
theorem goes_of_begins (howned : s.owned = true) (hr : Begins reason s.connection r) :
    Goes reason s (s.answerPoll name r).2 := by
  obtain ⟨ids, hids, hchanges⟩ := hr.changes
  -- a waiter that is held was registered before, so nobody holds one that is new
  have hnew : ∀ id, s.connection.exchange.mailboxes.length ≤ id → id ∉ waitersOf s.handles := by
    intro id hle hmem
    exact Nat.lt_irrefl _ (Nat.lt_of_lt_of_le (lt_of_isHeld (h.held id hmem)) hle)
  refine ⟨changes_answerPoll hchanges, owns_answerPoll h hx hchanges ?_ ?_, ?_⟩
  · intro id hid
    exact hnew id (hids id hid)
  · intro call hcall
    obtain ⟨hnodup, hwaiters⟩ := hr.pending call hcall
    exact ⟨hnodup, fun id hid => ⟨hnew id (hwaiters id hid).1, (hwaiters id hid).2⟩⟩
  · intro hheld
    rw [isHeld_of_owned howned] at hheld
    cases hheld

/-- A call that goes on. -/
theorem goes_of_polls (hlookup : s.handles.lookup name = some handle)
    (hr : Polls (Evolves reason) handle.waiters s.connection r)
    (hkeeps : s.isHeld = false → ∀ call, r.1 = .pending call → call.keeps = false) :
    Goes reason s ((s.take name).2.answerPoll name r).2 := by
  have hmem := mem_of_lookup hlookup
  have hrest : Owns (s.take name).2.handles (s.take name).2.connection.exchange :=
    h.sublist List.filter_sublist
  have hdisjoint : ∀ id ∈ handle.waiters, id ∉ waitersOf (s.take name).2.handles :=
    h.disjoint hmem
  refine ⟨changes_answerPoll (s := (s.take name).2) hr.changes,
    owns_answerPoll hrest hx hr.changes hdisjoint ?_, ?_⟩
  · intro call hcall
    obtain ⟨hwaiters, hchanges⟩ := hr.pending call hcall
    rw [hwaiters]
    refine ⟨(List.nodup_flatMap.mp h.nodup).1 _ hmem, ?_⟩
    intro id hid
    refine ⟨hdisjoint id hid, ?_⟩
    have hheld := h.held id (mem_waitersOf hmem hid)
    rwa [hchanges.exchange.isHeld_eq hx List.not_mem_nil (lt_of_isHeld hheld)]
  · intro hheld
    exact isHeld_answerPoll (isHeld_filter hheld _) (hkeeps hheld)

/-- A handle that is dropped. -/
theorem goes_of_drop (hlookup : s.handles.lookup name = some handle) :
    Goes reason s { (s.take name).2 with connection := dropHandle s.connection handle } := by
  have hchanges := changes_dropHandle s.connection handle
  have hrest : Owns (s.take name).2.handles s.connection.exchange :=
    h.sublist List.filter_sublist
  have hevolves : Changes (Evolves reason handle.waiters) s.connection _ := hchanges.imp .letGo
  refine ⟨⟨_, hevolves⟩, hrest.evolves hx (h.disjoint (mem_of_lookup hlookup)) hevolves.exchange, ?_⟩
  intro hheld
  exact isHeld_filter hheld _

/-- A waiter that is registered. -/
theorem goes_of_register (howned : s.owned = true) {event : String} {id : Nat} {c : Connection}
    (hregister : s.connection.register event = .ok (id, c)) :
    Goes reason s ({ s with connection := c }.put name (.waiter id)) := by
  have hchanges := changes_register hregister
  have hevolves : Evolves reason [] s.connection.exchange c.exchange :=
    hchanges.exchange.then_evolves (.refl _)
  have hle := hchanges.exchange.length_le hx id (by simp)
  obtain ⟨old, -, hput⟩ := changes_put { s with connection := c } name (.waiter id)
  refine ⟨⟨old, hchanges.trans hput fun h h' => h.then_evolves (.letGo h')⟩, ?_, ?_⟩
  · refine Owns.put (s := { s with connection := c }) (h.evolves hx (by simp) hevolves)
      (hevolves.sound hx) (by simp [Handle.waiters]) (hchanges.exchange.isHeld hx) ?_
    intro other hother hmem
    cases List.mem_singleton.mp hother
    exact Nat.lt_irrefl _ (Nat.lt_of_lt_of_le (lt_of_isHeld (h.held _ hmem)) hle)
  · intro hheld
    rw [isHeld_of_owned howned] at hheld
    cases hheld

end

/-- What any action does while the connection is not gone. -/
theorem act_goes (h : Owns s.handles s.connection.exchange) (hx : s.connection.exchange.Sound)
    (hgone : s.connection.isGone = false) (action : Action) :
    Goes action.closingReason s (s.act action).2 := by
  cases action with
  | register name event =>
    refine goes_withConnection h fun howned => ?_
    cases hregister : s.connection.register event with
    | error failure => exact goes_self h
    | ok result => exact goes_of_register h hx howned hregister
  | receive name limit =>
    rw [act]
    cases hlookup : s.handles.lookup name with
    | none =>
      simp only [take, hlookup]
      exact goes_take h name
    | some handle =>
      cases handle with
      | waiter id =>
        simp only [take, hlookup]
        exact goes_of_polls h hx hlookup (polls_poll hgone (.receive id _ false) s.now)
          fun _ call hcall => by rw [eq_of_pollReceive hcall, Call.keeps]
      | call call =>
        simp only [take, hlookup]
        refine goes_of_polls h hx hlookup (polls_poll hgone call s.now) ?_
        intro hheld call' hcall
        have hkeeps := (isHeld_eq_false.mp hheld).2 name call (mem_of_lookup hlookup)
        cases call with
        | receive waiter deadline keeps => rwa [eq_of_pollReceive hcall]
        | _ => cases hkeeps
  | drop name =>
    rw [act]
    cases hlookup : s.handles.lookup name with
    | none =>
      simp only [take, hlookup]
      exact goes_take h name
    | some handle =>
      simp only [take, hlookup]
      exact goes_of_drop h hx hlookup
  | awaitOnce name event =>
    refine goes_withConnection h fun howned => ?_
    exact goes_of_begins h hx howned (begins_awaitOnce hx hgone s.now event)
  | request name event payload =>
    refine goes_withConnection h fun howned => ?_
    exact goes_of_begins h hx howned (begins_request hx hgone s.now event payload)
  | send name event payload =>
    refine goes_withConnection h fun howned => ?_
    exact goes_of_begins h hx howned (begins_send hx hgone s.now event payload)
  | close name =>
    refine goes_withConnection h fun howned => ?_
    exact goes_of_begins h hx howned (begins_close hx s.now)
  | dropConnection => exact goes_of_eq h ⟨rfl, rfl, rfl⟩ rfl fun _ => rfl
  | peerWrite bytes =>
    rw [act]
    split
    · exact goes_self h
    · split
      · exact goes_self h
      · split <;> exact goes_of_eq h ⟨rfl, rfl, rfl⟩ rfl fun howned => howned
  | peerRead =>
    rw [act]
    split
    · exact goes_self h
    · exact goes_of_eq h ⟨rfl, rfl, rfl⟩ rfl id
  | trap operation trap =>
    cases operation <;> exact goes_of_eq h ⟨rfl, rfl, rfl⟩ rfl id
  | notices name =>
    rw [act]
    split
    · exact goes_self h
    · exact goes_of_eq h ⟨rfl, rfl, rfl⟩ rfl id
  | status | describe | subscribe _ =>
    exact goes_withConnection h fun _ => goes_of_eq h ⟨rfl, rfl, rfl⟩ rfl id
  | peerEnd | peerAbandon | peerClose | advance _ => exact goes_of_eq h ⟨rfl, rfl, rfl⟩ rfl id

/-! ### A connection that is gone -/

theorem exists_outcome?_of_gone {c : Connection} (hgone : c.isGone = true) (waiter : Nat) :
    ∃ reply, c.outcome? waiter = some reply := by
  rw [Connection.outcome?, hgone]
  cases c.exchange.outcome? waiter with
  | some reply => exact ⟨reply, rfl⟩
  | none => exact ⟨_, rfl⟩

/-- What any action does once the connection is gone and nobody refers to it. -/
theorem act_keeps (hgone : s.connection.isGone = true) (hheld : s.isHeld = false)
    (action : Action) :
    Changes Keeps s.connection (s.act action).2.connection ∧ (s.act action).2.isHeld = false := by
  obtain ⟨howned, hcalls⟩ := isHeld_eq_false.mp hheld
  have hself : Changes Keeps s.connection s.connection := ⟨.refl _, rfl, rfl⟩
  -- whoever still waits is told at once that there is no connection
  have hreceive : ∀ (name : String) (waiter : Nat) (deadline : Option Deadline) (keeps : Bool),
      Changes Keeps s.connection ((s.take name).2.answerPoll name
        (Call.pollReceive s.connection s.now waiter deadline keeps)).2.connection ∧
      ((s.take name).2.answerPoll name
        (Call.pollReceive s.connection s.now waiter deadline keeps)).2.isHeld = false := by
    intro name waiter deadline keeps
    obtain ⟨reply, hreply⟩ := exists_outcome?_of_gone hgone waiter
    rw [pollReceive_of_outcome? hreply]
    exact ⟨⟨keeps_settle _ _, rfl, rfl⟩, isHeld_filter hheld _⟩
  cases action with
  | receive name limit =>
    rw [act]
    cases hlookup : s.handles.lookup name with
    | none =>
      simp only [take, hlookup]
      exact ⟨⟨.refl _, rfl, rfl⟩, isHeld_filter hheld _⟩
    | some handle =>
      cases handle with
      | waiter id =>
        simp only [take, hlookup]
        exact hreceive name id _ false
      | call call =>
        simp only [take, hlookup]
        have hkeeps := hcalls name call (mem_of_lookup hlookup)
        cases call with
        | receive waiter deadline keeps => exact hreceive name waiter deadline keeps
        | _ => cases hkeeps
  | drop name =>
    rw [act]
    cases hlookup : s.handles.lookup name with
    | none =>
      simp only [take, hlookup]
      exact ⟨⟨.refl _, rfl, rfl⟩, isHeld_filter hheld _⟩
    | some handle =>
      simp only [take, hlookup]
      exact ⟨(changes_dropHandle s.connection handle).imp LetsGo.keeps, isHeld_filter hheld _⟩
  | register _ _ | awaitOnce _ _ | request _ _ _ | send _ _ _ | close _ | status | describe
    | subscribe _ =>
    simp only [act, withConnection, howned]
    exact ⟨hself, hheld⟩
  | dropConnection => exact ⟨hself, isHeld_eq_false.mpr ⟨rfl, hcalls⟩⟩
  | peerWrite bytes =>
    rw [act]
    split
    · exact ⟨hself, hheld⟩
    · split
      · exact ⟨hself, hheld⟩
      · split <;> exact ⟨⟨.refl _, rfl, rfl⟩, hheld⟩
  | peerRead =>
    rw [act]
    split <;> exact ⟨⟨.refl _, rfl, rfl⟩, hheld⟩
  | trap operation trap => cases operation <;> exact ⟨⟨.refl _, rfl, rfl⟩, hheld⟩
  | notices name =>
    rw [act]
    split <;> exact ⟨⟨.refl _, rfl, rfl⟩, hheld⟩
  | peerEnd | peerAbandon | peerClose | advance _ => exact ⟨⟨.refl _, rfl, rfl⟩, hheld⟩

end Session

end EnvelopeClient
