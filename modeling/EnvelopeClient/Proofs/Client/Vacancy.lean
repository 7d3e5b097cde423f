import EnvelopeClient.Proofs.Client.Sharing

/-!
# Whether the slot is vacant

All that happens to a connection that is there is that it may close (`Connection.Ages`), and all
that happens to a client's connections, but for one that is opened, is that they age
(`Client.Follows`). So it stays true that the only connection that can be open is the one that is
stored (`Client.Sole`), and a request that looks at the slot finds it vacant, or finds the only open
connection there is.
-/

namespace EnvelopeClient

open Exchange

/-! ### Connections -/

/-- An exchange keeps its state, or it closes. -/
theorem Exchange.Evolves.status {x y : Exchange} {reason : String} {ids : List Nat}
    (h : Evolves reason ids x y) : y.status = x.status ∨ y.status = .closed := by
  induction h with
  | letGo h => exact .inl h.keeps.status
  | deliver e h => exact .inl (h.keeps.status.trans (status_deliver _ e))
  | close h => exact .inr h.keeps.status
  | register hregister _ ih =>
    obtain ⟨hbefore, hbehind⟩ := status_register hregister
    rwa [hbehind, ← hbefore] at ih

namespace Connection

/-- A connection keeps its state, or it closes. -/
def Ages (c c' : Connection) : Prop := c'.status = c.status ∨ c'.status = .closed

variable {c c' c'' : Connection}

theorem Ages.refl (c : Connection) : c.Ages c := .inl rfl

theorem Ages.trans (h : c.Ages c') (h' : c'.Ages c'') : c.Ages c'' := by
  rcases h' with hsame | hclosed
  · rcases h with hsame' | hclosed
    · exact .inl (hsame.trans hsame')
    · exact .inr (hsame.trans hclosed)
  · exact .inr hclosed

theorem ages_poll (hheld : c.released = false) (call : Call) (now : Nat) :
    c.Ages (call.poll c now).2 := by
  have hgone : c.isGone = false := by simp [isGone, hheld]
  exact (polls_poll hgone call now).changes.exchange.status

theorem ages_ask (hheld : c.released = false) (hsound : c.exchange.Sound) (now : Nat)
    (event : String) (payload : Payload) (limit : Option Nat) :
    c.Ages (c.ask now event payload limit).2 := by
  have hgone : c.isGone = false := by simp [isGone, hheld]
  obtain ⟨_, -, hchanges⟩ :=
    (begins_of_first hsound hgone now (first_ask c now event payload limit)).changes
  exact hchanges.exchange.status

theorem status_drop (call : Call) (c : Connection) : (call.drop c).status = c.status :=
  (changes_drop call c).exchange.keeps.status

theorem ages_befall (c : Connection) (what : Incident) : c.Ages (c.befall what) := by
  cases what with
  | trap operation trap => cases operation <;> exact .inl rfl
  | reader =>
    rw [befall]
    cases hstep : c.readerStep with
    | none => exact .refl c
    | some c' => exact (evolves_readerStep hstep).1.status
  | _ => exact .inl rfl

end Connection

namespace Client

variable {c c' c'' : Client} {conn conn' : Connection} {k id : Nat}

/-! ### Connections that stay -/

/-- The same connection is stored, none is opened, and all have the states they had. -/
structure Stays (c c' : Client) : Prop where
  config : c'.config = c.config
  stored : c'.stored = c.stored
  statuses : c'.connections.map (·.status) = c.connections.map (·.status)

/-- The same connection is stored, none is opened, and those there are age. -/
structure Follows (c c' : Client) : Prop where
  config : c'.config = c.config
  stored : c'.stored = c.stored
  length : c'.connections.length = c.connections.length
  ages : ∀ (k : Nat) (conn' : Connection), c'.connections[k]? = some conn' →
    ∃ conn, c.connections[k]? = some conn ∧ conn.Ages conn'

theorem Stays.follows (h : c.Stays c') : c.Follows c' where
  config := h.config
  stored := h.stored
  length := by simpa using congrArg List.length h.statuses
  ages k conn' hconn' := by
    have hstatus : c.connections[k]?.map (·.status) = some conn'.status := by
      rw [← List.getElem?_map, ← h.statuses, List.getElem?_map, hconn']
      rfl
    obtain ⟨conn, hconn, heq⟩ := Option.map_eq_some_iff.mp hstatus
    exact ⟨conn, hconn, .inl heq.symm⟩

theorem stays_of_eq (hconfig : c'.config = c.config) (hstored : c'.stored = c.stored)
    (hconnections : c'.connections = c.connections) : c.Stays c' where
  config := hconfig
  stored := hstored
  statuses := by rw [hconnections]

theorem Stays.refl (c : Client) : c.Stays c := stays_of_eq rfl rfl rfl

theorem Stays.trans (h : c.Stays c') (h' : c'.Stays c'') : c.Stays c'' where
  config := h'.config.trans h.config
  stored := h'.stored.trans h.stored
  statuses := h'.statuses.trans h.statuses

theorem Follows.trans (h : c.Follows c') (h' : c'.Follows c'') : c.Follows c'' where
  config := h'.config.trans h.config
  stored := h'.stored.trans h.stored
  length := h'.length.trans h.length
  ages k conn'' hconn := by
    obtain ⟨conn', hconn', hages'⟩ := h'.ages k conn'' hconn
    obtain ⟨conn, hconn, hages⟩ := h.ages k conn' hconn'
    exact ⟨conn, hconn, hages.trans hages'⟩

theorem stays_leaveTurns (c : Client) (turn : Option Nat) : c.Stays (c.leaveTurns turn) := by
  cases turn <;> exact stays_of_eq rfl rfl rfl

theorem stays_turns (c : Client) (turns : List Nat) (nextTurn : Nat) :
    c.Stays { c with turns, nextTurn } :=
  stays_of_eq rfl rfl rfl

theorem stays_setProgress (c : Client) (id : Nat) (progress : Progress) :
    c.Stays (c.setProgress id progress) :=
  stays_of_eq rfl rfl rfl

/-- Releasing a connection does not close it. -/
theorem stays_releaseUnused (c : Client) : c.Stays c.releaseUnused where
  config := rfl
  stored := rfl
  statuses := by
    refine List.ext_getElem? ?_
    intro k
    rw [releaseUnused, List.getElem?_map, List.getElem?_map, List.getElem?_mapIdx, Option.map_map]
    congr 1
    funext conn
    show Connection.status (if _ then conn else conn.release) = conn.status
    split <;> rfl

theorem stays_finish (c : Client) (id : Nat) : c.Stays (c.finish id) := by
  have hremoved : c.Stays { c with requests := c.requests.filter (·.1 ≠ id) } :=
    stays_of_eq rfl rfl rfl
  exact hremoved.trans (stays_releaseUnused _)

theorem stays_onConnection (c : Client) (k : Nat) {act : Connection → Connection}
    (h : ∀ conn, (act conn).status = conn.status) : c.Stays (c.onConnection k act) where
  config := rfl
  stored := rfl
  statuses := by
    refine List.ext_getElem? ?_
    intro j
    rw [onConnection, List.getElem?_map, List.getElem?_map, List.getElem?_modify]
    cases c.connections[j]? with
    | none => rfl
    | some conn =>
      by_cases hj : k = j
      · simp [hj, h]
      · simp [hj]

theorem follows_onConnection {act : Connection → Connection}
    (h : ∀ conn, c.connections[k]? = some conn → conn.Ages (act conn)) :
    c.Follows (c.onConnection k act) where
  config := rfl
  stored := rfl
  length := by rw [onConnection, List.length_modify]
  ages j conn' hconn' := by
    obtain ⟨conn, hconn, ⟨rfl, rfl⟩ | ⟨-, rfl⟩⟩ := getElem?_modify_cases hconn'
    · exact ⟨conn, hconn, h conn hconn⟩
    · exact ⟨conn', hconn, .refl conn'⟩

/-- A client takes note of a poll on a connection. -/
theorem follows_absorb {result : EnvelopeClient.Poll × Connection}
    (hconn : c.connections[k]? = some conn) (hages : conn.Ages result.2) :
    c.Follows (c.absorb id k result).2 := by
  have hnoted : c.Follows (c.onConnection k fun _ => result.2) := by
    refine follows_onConnection ?_
    intro conn' hconn'
    rw [hconn] at hconn'
    cases hconn'
    exact hages
  rw [absorb]
  cases result.1 with
  | pending call => exact hnoted.trans (stays_setProgress _ id _).follows
  | finished outcome => exact hnoted.trans (stays_finish _ id).follows

/-! ### The slot -/

/-- Of a client's connections only the one that is stored can be open, and there are none as long as
none is stored. -/
structure Sole (c : Client) : Prop where
  known : ∀ (k : Nat) (conn : Connection), c.connections[k]? = some conn →
    conn.status = .open ∨ conn.status = .closed
  stored : ∀ (k : Nat) (conn : Connection), c.connections[k]? = some conn → conn.status = .open →
    c.stored = some k
  lt : ∀ k, c.stored = some k → k < c.connections.length
  empty : c.stored = none → c.connections = []

theorem sole_ofConfig (config : Config) : (ofConfig config).Sole where
  known k conn hconn := by cases hconn
  stored k conn hconn := by cases hconn
  lt k hstored := by cases hstored
  empty _ := rfl

theorem Sole.follows (h : c.Sole) (hfollows : c.Follows c') : c'.Sole where
  known k conn' hconn' := by
    obtain ⟨conn, hconn, hsame | hclosed⟩ := hfollows.ages k conn' hconn'
    · rw [hsame]
      exact h.known k conn hconn
    · exact .inr hclosed
  stored k conn' hconn' hopen := by
    obtain ⟨conn, hconn, hsame | hclosed⟩ := hfollows.ages k conn' hconn'
    · rw [hfollows.stored]
      exact h.stored k conn hconn (hsame.symm.trans hopen)
    · cases hopen.symm.trans hclosed
  lt k hstored := by
    rw [hfollows.length]
    exact h.lt k (hfollows.stored.symm.trans hstored)
  empty hnone := by
    have hempty := h.empty (hfollows.stored.symm.trans hnone)
    rw [← List.length_eq_zero_iff, hfollows.length, hempty]
    rfl

/-- No connection has been opened, or the one that is stored is closed. -/
def Vacant (c : Client) : Prop :=
  c.connections = [] ∨
    ∃ k conn, c.stored = some k ∧ c.connections[k]? = some conn ∧ conn.status = .closed

theorem openConnection?_eq_some :
    c.openConnection? = some k ↔
      c.stored = some k ∧ ∃ conn, c.connections[k]? = some conn ∧ conn.status = .open := by
  simp [openConnection?, Option.filter_eq_some_iff, Option.any_eq_true]

/-- The slot is vacant exactly if there is no open connection to be found there. -/
theorem Sole.vacant_iff (h : c.Sole) : c.Vacant ↔ c.openConnection? = none := by
  constructor
  · intro hvacant
    cases hopen : c.openConnection? with
    | none => rfl
    | some k =>
      obtain ⟨hstored, conn, hconn, hopen⟩ := openConnection?_eq_some.mp hopen
      rcases hvacant with hempty | ⟨k', conn', hstored', hconn', hclosed⟩
      · rw [hempty] at hconn
        cases hconn
      · rw [hstored] at hstored'
        cases hstored'
        rw [hconn] at hconn'
        cases hconn'
        cases hopen.symm.trans hclosed
  · intro hnone
    cases hstored : c.stored with
    | none => exact .inl (h.empty hstored)
    | some k =>
      have hconn := List.getElem?_eq_getElem (h.lt k hstored)
      refine .inr ⟨k, _, hstored, hconn, ?_⟩
      rcases h.known k _ hconn with hopen | hclosed
      · cases hnone.symm.trans (openConnection?_eq_some.mpr ⟨hstored, _, hconn, hopen⟩)
      · exact hclosed

/-- No other connection is open. -/
theorem Sole.eq_of_open (h : c.Sole) {j : Nat} (hj : c.connections[j]? = some conn)
    (hk : c.connections[k]? = some conn') (hopen : conn.status = .open)
    (hopen' : conn'.status = .open) : j = k :=
  Option.some.inj ((h.stored j conn hj hopen).symm.trans (h.stored k conn' hk hopen'))

/-- An open connection is the one that is found. -/
theorem Sole.openConnection? (h : c.Sole) (hk : c.connections[k]? = some conn)
    (hopen : conn.status = .open) : c.openConnection? = some k :=
  openConnection?_eq_some.mpr ⟨h.stored k conn hk hopen, conn, hk, hopen⟩

/-- A connection that is opened when the slot is vacant, and stored, is the only open one. -/
theorem Sole.connect (h : c.Sole) (hvacant : c.openConnection? = none) {capacity : Option Nat}
    (hconnections : c'.connections = c.connections ++ [.opened c.config.socketPath capacity])
    (hstored : c'.stored = some c.connections.length) : c'.Sole where
  known k conn hconn := by
    rw [hconnections] at hconn
    rcases getElem?_concat_cases hconn with ⟨-, rfl⟩ | ⟨-, hconn⟩
    · exact .inl rfl
    · exact h.known k conn hconn
  stored k conn hconn hopen := by
    rw [hconnections] at hconn
    rcases getElem?_concat_cases hconn with ⟨rfl, -⟩ | ⟨-, hconn⟩
    · exact hstored
    · cases hvacant.symm.trans (h.openConnection? hconn hopen)
  lt k hk := by
    rw [hstored] at hk
    cases hk
    rw [hconnections, List.length_append]
    exact Nat.lt_succ_self _
  empty hnone := by cases hnone.symm.trans hstored

/-- What is vacant stays so until a connection is opened. -/
theorem Follows.openConnection? (h : c.Follows c') (hvacant : c.openConnection? = none) :
    c'.openConnection? = none := by
  cases hopen : c'.openConnection? with
  | none => rfl
  | some k =>
    obtain ⟨hstored, conn', hconn', hopen'⟩ := openConnection?_eq_some.mp hopen
    obtain ⟨conn, hconn, hsame | hclosed⟩ := h.ages k conn' hconn'
    · cases hvacant.symm.trans (openConnection?_eq_some.mpr
        ⟨h.stored.symm.trans hstored, conn, hconn, hsame.symm.trans hopen'⟩)
    · cases hopen'.symm.trans hclosed

end Client

end EnvelopeClient
