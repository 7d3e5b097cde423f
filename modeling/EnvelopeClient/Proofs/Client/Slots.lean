import EnvelopeClient.Proofs.Client.Ledger
import EnvelopeClient.Proofs.Connection.Slots

/-!
# No slot leaks

In every run, of a session as well as of a client, there are as many slots on a connection as there
are waiters without an outcome among those of its callers and of their unfinished calls, and however
a call ends it leaves no slot behind and takes none that is not its own (`slots_accounted`).
-/

namespace EnvelopeClient

open Exchange

/-- Whoever uses a connection, its slots are those of the waiters that are still there and have been
given nothing.

On a connection that callers use in any way, these are the waiters they hold and those of their
unfinished calls; under a client, those of the requests under way, which are two, or one if the
request is for an error message. A call that ends leaves no slot, whether it is polled to its end,
dropped, or over when it begins, and nobody else loses a slot but for an outcome. Of a connection
that is gone nobody can ask for its slots. -/
theorem slots_accounted :
    (∀ (peer : String) (capacity : Option Nat) (moves : List Session.Move),
      let s := (Session.start peer capacity).run moves
      let c := s.connection
      c.isGone = false →
        Slots (Session.waitersOf s.handles) c.exchange ∧
        (∀ p ∈ s.handles, p.2.waiters.length = p.2.slots) ∧
        (s.handles = [] → c.pending = 0) ∧
        (∀ p ∈ s.handles, ∀ call, call.waiters = p.2.waiters → c.EndsClean call) ∧
        ∀ now event payload limit outcome, ∀ r ∈ [c.awaitOnce now event, c.send now event payload,
            c.request now event payload, c.ask now event payload limit, c.close now],
          r.1 = .finished outcome → GivesUp [] c.exchange r.2.exchange) ∧
    ∀ (config : Config) (moves : List Client.Move) (k : Nat) (conn : Connection),
      let c := (Client.ofConfig config).run moves
      c.connections[k]? = some conn → conn.isGone = false →
        Slots (Client.waitersOf c.requests k) conn.exchange ∧
        (∀ p ∈ c.requests, ∀ call, p.2.progress = .running k call →
          call.waiters.length = slotsFor p.2.event ∧ conn.EndsClean call) ∧
        ((∀ p ∈ c.requests, ∀ call, p.2.progress ≠ .running k call) → conn.pending = 0) := by
  constructor
  · intro peer capacity moves s c hgone
    have h : s.Orderly := Session.orderly_run (Session.sound_start peer capacity)
      (fun _ => Session.orderly_start peer capacity) moves hgone
    have haccounts : Accounts (Session.waitersOf s.handles) c.exchange := h.accounts
    refine ⟨haccounts.slots, h.filed.slots, ?_, ?_, ?_⟩
    · intro hnone
      have hslots := haccounts.slots
      rw [hnone] at hslots
      exact hslots.pending_nil
    · rintro ⟨name, handle⟩ hp call hcall
      have hperm := (perm_cons_filter h.filed.names hp).flatMap_right (·.2.waiters)
      have hall := haccounts.perm hperm
      rw [List.flatMap_cons, ← hcall] at hall
      exact Connection.endsClean hall hgone
    · intro now event payload limit outcome r hr hfinished
      simp only [List.mem_cons, List.not_mem_nil, or_false] at hr
      rcases hr with rfl | rfl | rfl | rfl | rfl
      · exact Connection.givesUp_of_first haccounts hgone (Connection.first_awaitOnce ..) hfinished
      · exact Connection.givesUp_of_first haccounts hgone (Connection.first_send ..) hfinished
      · exact Connection.givesUp_of_first haccounts hgone (Connection.first_request ..) hfinished
      · exact Connection.givesUp_of_first haccounts hgone (Connection.first_ask ..) hfinished
      · exact Connection.givesUp_close haccounts hfinished
  · intro config moves k conn c hconn hgone
    have h : c.Orderly := (Client.orderly_ofConfig config).run moves
    have hslots := (h.accounts k conn hconn hgone).slots
    refine ⟨hslots, ?_, ?_⟩
    · rintro ⟨id, r⟩ hp call hrunning
      obtain ⟨-, hlength, hevent⟩ := h.running _ hp k call hrunning
      obtain ⟨-, hall⟩ := h.under_way hp hrunning hconn
      exact ⟨hlength.trans hevent, Connection.endsClean hall hgone⟩
    · intro hnobody
      rw [Client.waitersOf_eq_nil hnobody] at hslots
      exact hslots.pending_nil

/-- Two requests share a connection, one of them for an error message; and a request is dropped while
somebody else waits. -/
theorem slots_accounted_shared :
    let c := (Client.ofConfig ⟨"socket", .shared, .none⟩).run
      [.begin "echo" (.int 1), .begin "error" (.int 2), .poll 0 0 (.accepted none), .poll 1 0 .waiting]
    let s := (Session.start "peer" none).run
      [.act (.register "waiter" "ready"), .ask "call" "echo" (.int 1) none, .act (.drop "call")]
    (∃ conn, c.connections[0]? = some conn ∧ conn.isGone = false ∧ conn.pending = 3) ∧
      s.connection.isGone = false ∧ s.connection.pending = 1 := by
  intro c s
  obtain ⟨hsession, hclient⟩ := slots_accounted
  have hcount : c.connections[0]?.map (fun conn => (conn.isGone,
      ((Client.waitersOf c.requests 0).filter fun id =>
        (conn.exchange.outcome? id).isNone).length)) = some (false, 3) := by
    decide +kernel
  obtain ⟨conn, hconn, heq⟩ := Option.map_eq_some_iff.mp hcount
  have hgone : conn.isGone = false := congrArg Prod.fst heq
  have hshared := (hclient _ _ 0 conn hconn hgone).1
  have hgone' : s.connection.isGone = false := by decide +kernel
  have hheld := (hsession _ _ _ hgone').1
  exact ⟨⟨conn, hconn, hgone, hshared.pending.trans (congrArg Prod.snd heq)⟩, hgone',
    hheld.pending.trans (by decide +kernel)⟩

end EnvelopeClient
