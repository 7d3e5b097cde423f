import EnvelopeClient.Proofs.Reception.Account
import EnvelopeClient.Proofs.Reception.Follows

/-!
# The reader follows the codec

What a reader takes off its stream is what the codec makes of the chunks it has read, in the same
order and each frame once, whatever the users of the connection do in between
(`reader_follows_codec`).
-/

namespace EnvelopeClient

/-! ### The state of a connection -/

namespace Exchange

/-- A registration is refused, which changes nothing, or made. -/
theorem act_register_cases (x : Exchange) (event : String) :
    x.act (.register event) = x ∨ ∃ id, x.register event = .ok (id, x.act (.register event)) := by
  rw [act]
  cases hregister : x.register event with
  | error failure => exact .inl rfl
  | ok r => exact .inr ⟨r.1, rfl⟩

/-- Only a close closes. -/
theorem status_act {x : Exchange} {a : Act} (hopen : x.status = .open)
    (h : ∀ reason, a ≠ .close reason) : (x.act a).status = .open := by
  cases a with
  | register event =>
    rcases act_register_cases x event with hsame | ⟨id, hregister⟩
    · rw [hsame]
      exact hopen
    · exact (status_register hregister).2
  | deliver e => exact (status_deliver x e).trans hopen
  | cancel waiter => exact hopen
  | settle waiter => exact hopen
  | close reason => exact absurd rfl (h reason)

theorem closed_acts {x : Exchange} (hclosed : x.status = .closed) (acts : List Act) :
    (acts.foldl act x).status = .closed := by
  induction acts generalizing x with
  | nil => exact hclosed
  | cons a acts ih =>
    refine ih ?_
    cases a with
    | register event =>
      rcases act_register_cases x event with hsame | ⟨id, hregister⟩
      · rw [hsame]
        exact hclosed
      · cases (status_register hregister).1.symm.trans hclosed
    | deliver e => exact (status_deliver x e).trans hclosed
    | cancel waiter => exact hclosed
    | settle waiter => exact hclosed
    | close reason => rfl

theorem status_acts {x : Exchange} {acts : List Act} (hopen : x.status = .open)
    (h : ∀ a ∈ acts, ∀ reason, a ≠ .close reason) : (acts.foldl act x).status = .open := by
  induction acts generalizing x with
  | nil => exact hopen
  | cons a acts ih =>
    have hnext := status_act hopen (h a List.mem_cons_self)
    exact ih hnext fun b hb => h b (List.mem_cons_of_mem a hb)

end Exchange

/-- The bytes a read gets. -/
def ReadResult.taken : ReadResult → List UInt8
  | .bytes chunk => chunk
  | .ended | .failed _ | .waiting => []

/-- A read takes them off the front of the stream. -/
theorem Inbound.taken_append {p p' : Inbound} {room : Nat} {result : ReadResult}
    (h : p.read room = (result, p')) : result.taken ++ p'.unread = p.unread := by
  unfold Inbound.read at h
  cases htrap : p.trap with
  | some trap =>
    rw [htrap] at h
    cases trap <;> (cases h; rfl)
  | none =>
    rw [htrap] at h
    by_cases hempty : p.unread.isEmpty
    · simp only [if_pos hempty] at h
      cases hended : p.ended <;> (rw [hended] at h; cases h; rfl)
    · simp only [if_neg hempty] at h
      cases h
      exact List.take_append_drop _ _

/-! ### The end of a reader -/

namespace Trace

/-- A reader that ends by itself has taken everything before, and does nothing behind. -/
def EndsWhole (t : Trace) : Prop :=
  ∀ before r after, t = before ++ .read r :: after →
    (r = .finish ∨ ∃ fault, r = .failed fault) →
      frames before = codec before ∧ ∀ other, Entry.read other ∉ after

theorem EndsWhole.append {t u : Trace} (h : EndsWhole t) (hu : ∀ r, Entry.read r ∉ u) :
    EndsWhole (t ++ u) := by
  intro before r after heq hlast
  rcases List.append_eq_append_iff.mp heq with ⟨between, -, hright⟩ | ⟨between, hleft, hright⟩
  · exact absurd (by simp [hright]) (hu r)
  · cases between with
    | nil =>
      have hsame : u = .read r :: after := hright.symm
      exact absurd (by simp [hsame]) (hu r)
    | cons first between =>
      obtain ⟨rfl, rfl⟩ := List.cons.inj hright
      obtain ⟨hall, hnone⟩ := h before r between hleft hlast
      refine ⟨hall, ?_⟩
      intro other hother
      rcases List.mem_append.mp hother with hother | hother
      · exact hnone other hother
      · exact hu other hother

/-- The reader takes a step behind a trace without its end. -/
theorem EndsWhole.concat {t : Trace} {r : Reading}
    (hgoes : ∀ entry ∈ t, entry.isLast = false)
    (hall : (r = .finish ∨ ∃ fault, r = .failed fault) → t.frames = t.codec) :
    EndsWhole (t ++ [.read r]) := by
  intro before other after heq hlast
  have hlast' : (Entry.read other).isLast = true := by
    rcases hlast with rfl | ⟨fault, rfl⟩ <;> rfl
  rcases List.append_eq_append_iff.mp heq with ⟨between, rfl, hright⟩ | ⟨between, rfl, hright⟩
  · -- it is the last entry
    cases between with
    | nil =>
      cases hright
      rw [List.append_nil]
      exact ⟨hall hlast, fun _ => List.not_mem_nil⟩
    | cons first between => simp at hright
  · cases between with
    | nil =>
      cases hright
      rw [List.append_nil] at hall
      exact ⟨hall hlast, fun _ => List.not_mem_nil⟩
    | cons first between =>
      obtain ⟨rfl, -⟩ := List.cons.inj hright
      cases hlast'.symm.trans (hgoes (.read other) (by simp))

end Trace

namespace Reception

open Connection

/-- What holds of a connection and its trace. -/
structure Inv (s : Reception) : Prop where
  follows : Follows s.trace s.connection.reader
  sent : s.trace.chunks.flatten ++ s.connection.inbound.unread = s.sent
  exchange : s.connection.exchange = s.trace.acts.foldl Exchange.act .opened
  notices : s.connection.notices = s.trace.announced.foldl Notices.send .empty
  delivered : s.trace.delivered = s.trace.frames.filterMap Frame.envelope?
  announced : s.trace.announced = s.trace.frames.filterMap Frame.notice? ++ s.trace.failures
  once : s.trace.failures.length ≤ 1
  /-- Behind its last step the reader is gone. -/
  last : (∃ entry ∈ s.trace, entry.isLast = true) → s.connection.reader = .ended
  /-- It ends by itself only when it has taken everything. -/
  ends : s.trace.EndsWhole
  /-- A reader that ends closes the connection behind itself. -/
  closed : ∀ r, .read r ∈ s.trace → (Entry.read r).isLast = true → s.connection.status = .closed
  /-- Nothing but a cause closes the connection, or stops the reader. -/
  stays : (∀ entry ∈ s.trace, entry.isCause = false) →
    s.connection.status = .open ∧ s.connection.cancelled = false

theorem inv_start (peer : String) (capacity : Option Nat) : (start peer capacity).Inv where
  follows := .waits rfl rfl rfl
  sent := rfl
  exchange := rfl
  notices := rfl
  delivered := rfl
  announced := rfl
  once := Nat.zero_le 1
  last h := by
    obtain ⟨entry, hmem, -⟩ := h
    cases hmem
  ends before r after h := by simp [start] at h
  closed r h := absurd h List.not_mem_nil
  stays _ := ⟨rfl, rfl⟩

variable {s : Reception}

/-- Unless the reader vanishes, it goes on. -/
theorem not_last_of_unread {u : Trace} (hu : ∀ r, Entry.read r ∉ u) (hstays : .vanished ∉ u) :
    ∀ entry ∈ u, entry.isLast = false := by
  intro entry hentry
  cases entry with
  | read r => exact absurd hentry (hu r)
  | act a => rfl
  | vanished => exact absurd hentry hstays

/-- Without a cause others close nothing. -/
theorem status_of_unread {u : Trace} {x : Exchange} (hu : ∀ r, Entry.read r ∉ u)
    (hopen : x.status = .open) (hcause : ∀ entry ∈ u, entry.isCause = false) :
    (u.acts.foldl Exchange.act x).status = .open := by
  refine Exchange.status_acts hopen ?_
  intro a ha reason heq
  obtain ⟨entry, hentry, hact⟩ := List.mem_filterMap.mp ha
  subst heq
  cases entry with
  | read r => exact absurd hentry (hu r)
  | act b =>
    cases hact
    cases hcause _ hentry
  | vanished => cases hact

/-- Others move, which the trace `u` says: the notices stay as they are, and so does the reader
unless it vanishes. -/
theorem Inv.aside (h : s.Inv) {c' : Connection} {u : Trace} {bytes : List UInt8}
    (hu : ∀ r, Entry.read r ∉ u) (hdelivered : u.delivered = [])
    (hexchange : c'.exchange = u.acts.foldl Exchange.act s.connection.exchange)
    (hnotices : c'.notices = s.connection.notices)
    (hreader : .vanished ∉ u ∧ c'.reader = s.connection.reader ∨ .vanished ∈ u ∧ c'.reader = .ended)
    (hunread : c'.inbound.unread = s.connection.inbound.unread ++ bytes)
    (hcancelled : c'.cancelled = true →
      s.connection.cancelled = true ∨ ∃ entry ∈ u, entry.isCause = true) :
    Inv ⟨c', s.trace ++ u, s.sent ++ bytes⟩ := by
  have hchunks : u.chunks = [] := Trace.filterMap_of_unread hu (fun _ => rfl) rfl
  have hframes : u.frames = [] := Trace.filterMap_of_unread hu (fun _ => rfl) rfl
  have hannounced : u.announced = [] := Trace.filterMap_of_unread hu (fun _ => rfl) rfl
  have hfailures : u.failures = [] := Trace.filterMap_of_unread hu (fun _ => rfl) rfl
  have hfollows := h.follows.append hchunks hframes (Trace.atEnd_of_unread hu)
  refine ⟨?_, ?_, ?_, ?_, ?_, ?_, ?_, ?_, ?_, ?_, ?_⟩
  · rcases hreader with ⟨-, hsame⟩ | ⟨hvanished, hended⟩
    · show Follows (s.trace ++ u) c'.reader
      rw [hsame]
      exact hfollows
    · show Follows (s.trace ++ u) c'.reader
      rw [hended]
      exact .ended hfollows.front (.inr (.inl (List.mem_append_right _ hvanished)))
  · show (Trace.chunks (s.trace ++ u)).flatten ++ c'.inbound.unread = s.sent ++ bytes
    rw [Trace.chunks_append, hchunks, List.append_nil, hunread, ← List.append_assoc, h.sent]
  · show c'.exchange = (Trace.acts (s.trace ++ u)).foldl Exchange.act .opened
    rw [Trace.acts_append, List.foldl_append, ← h.exchange, hexchange]
  · show c'.notices = (Trace.announced (s.trace ++ u)).foldl Notices.send .empty
    rw [Trace.announced_append, hannounced, List.append_nil, hnotices, h.notices]
  · show Trace.delivered (s.trace ++ u) = (Trace.frames (s.trace ++ u)).filterMap Frame.envelope?
    rw [Trace.delivered_append, hdelivered, Trace.frames_append, hframes, List.append_nil,
      List.append_nil, h.delivered]
  · show Trace.announced (s.trace ++ u) =
      (Trace.frames (s.trace ++ u)).filterMap Frame.notice? ++ Trace.failures (s.trace ++ u)
    rw [Trace.announced_append, hannounced, Trace.frames_append, hframes, Trace.failures_append,
      hfailures, List.append_nil, List.append_nil, List.append_nil, h.announced]
  · show (Trace.failures (s.trace ++ u)).length ≤ 1
    rw [Trace.failures_append, hfailures, List.append_nil]
    exact h.once
  · intro ⟨entry, hentry, hlast⟩
    show c'.reader = .ended
    rcases hreader with ⟨hstays, hsame⟩ | ⟨-, hended⟩
    · rcases List.mem_append.mp hentry with hentry | hentry
      · rw [hsame]
        exact h.last ⟨entry, hentry, hlast⟩
      · cases (not_last_of_unread hu hstays entry hentry).symm.trans hlast
    · exact hended
  · exact h.ends.append hu
  · intro r hr hlast
    rcases List.mem_append.mp hr with hr | hr
    · show c'.exchange.status = .closed
      rw [hexchange]
      exact Exchange.closed_acts (h.closed r hr hlast) _
    · exact absurd hr (hu r)
  · intro hcause
    have hnone : ∀ entry ∈ u, entry.isCause = false := by
      intro entry hentry
      exact hcause entry (List.mem_append_right _ hentry)
    obtain ⟨hopen, hgoes⟩ :=
      h.stays fun entry hentry => hcause entry (List.mem_append_left _ hentry)
    refine ⟨?_, ?_⟩
    · show c'.exchange.status = .open
      rw [hexchange]
      exact status_of_unread hu hopen hnone
    · show c'.cancelled = false
      cases hstop : c'.cancelled with
      | false => rfl
      | true =>
        rcases hcancelled hstop with hbefore | ⟨entry, hentry, hyes⟩
        · cases hbefore.symm.trans hgoes
        · cases hyes.symm.trans (hnone entry hentry)

/-- A step of the reader takes its bytes off the stream. -/
theorem sent_of_reads {c c' : Connection} {r : Reading} (h : c.Reads r c') :
    (Trace.chunks [.read r]).flatten ++ c'.inbound.unread = c.inbound.unread := by
  have hdispatch : ∀ (c : Connection) (f : Frame), (c.dispatch f).inbound = c.inbound := by
    intro c f
    obtain ⟨exchange, notices, hsame, -⟩ := c.exists_dispatch f
    rw [hsame]
  cases h with
  | @bytes intake atEnd chunk inbound hreader hcancelled hread =>
    rw [← Inbound.taken_append hread]
    exact congrArg (· ++ _) (List.append_nil _)
  | ended hreader hcancelled hread => exact Inbound.taken_append hread
  | failed hreader hcancelled hread => exact Inbound.taken_append hread
  | frame hreader hcancelled hdecode =>
    rw [hdispatch]
    rfl
  | lastFrame hreader hcancelled hdecode =>
    rw [hdispatch]
    rfl
  | stop _ _ | rest _ _ _ | finish _ _ _ => rfl

/-- Only a reader that runs takes a step, and its last step ends it. -/
theorem reader_of_reads {c c' : Connection} {r : Reading} (h : c.Reads r c') :
    c.reader ≠ .ended ∧ ((Entry.read r).isLast = true → c'.reader = .ended) := by
  cases h with
  | stop hreader _ => exact ⟨by simp [hreader], fun _ => rfl⟩
  | failed hreader _ _ | finish hreader _ _ => exact ⟨by simp [hreader], fun _ => rfl⟩
  | bytes hreader _ _ | ended hreader _ _ | frame hreader _ _ | rest hreader _ _
  | lastFrame hreader _ _ =>
    refine ⟨by simp [hreader], ?_⟩
    intro hlast
    cases hlast

theorem closed_of_reads {c c' : Connection} {r : Reading} (h : c.Reads r c')
    (hlast : (Entry.read r).isLast = true) : c'.status = .closed := by
  cases h with
  | stop _ _ | failed _ _ _ | finish _ _ _ => rfl
  | bytes _ _ _ | ended _ _ _ | frame _ _ _ | rest _ _ _ | lastFrame _ _ _ => cases hlast

/-- A step of the reader closes the connection only for a cause there has been. -/
theorem stays_of_reads {t : Trace} {c c' : Connection} {r : Reading} (hfollows : Follows t c.reader)
    (h : c.Reads r c') (hopen : c.status = .open) (hgoes : c.cancelled = false)
    (hcause : ∀ entry ∈ t ++ [.read r], Entry.isCause entry = false) :
    c'.status = .open ∧ c'.cancelled = false := by
  have hdispatch : ∀ (reader : Reader) (f : Frame),
      (dispatch { c with reader := reader } f).status = .open ∧
        (dispatch { c with reader := reader } f).cancelled = false := by
    intro reader f
    obtain ⟨exchange, notices, hsame, hstatus⟩ := exists_dispatch { c with reader := reader } f
    rw [hsame]
    exact ⟨hstatus.trans hopen, hgoes⟩
  cases h with
  | stop hreader hcancelled => cases hgoes.symm.trans hcancelled
  | bytes hreader hcancelled hread => exact ⟨hopen, hgoes⟩
  | ended hreader hcancelled hread => exact ⟨hopen, hgoes⟩
  | @failed intake atEnd fault inbound hreader hcancelled hread =>
    cases hcause (.read (.failed fault)) (List.mem_append_right _ (List.mem_singleton_self _))
  | frame hreader hcancelled hdecode => exact hdispatch _ _
  | rest hreader hcancelled hdecode => exact ⟨hopen, hgoes⟩
  | lastFrame hreader hcancelled hdecode => exact hdispatch _ _
  | finish hreader hcancelled hdecode =>
    -- the end of the stream was found before
    rw [hreader] at hfollows
    cases hfollows with
    | ends hframes hend =>
      obtain ⟨entry, hentry, hyes⟩ := List.any_eq_true.mp hend
      have hnot := hcause entry (List.mem_append_left _ hentry)
      cases hnot.symm.trans (Entry.isCause_of_isEnd hyes)

/-- The reader takes a step. -/
theorem Inv.reads (h : s.Inv) {r : Reading} {c' : Connection} (hreads : s.connection.Reads r c') :
    Inv ⟨c', s.trace ++ [.read r], s.sent ++ []⟩ := by
  obtain ⟨hexchange, hnotices⟩ := hreads.account
  obtain ⟨hrunning, hlast⟩ := reader_of_reads hreads
  have hgoes : ∀ entry ∈ s.trace, entry.isLast = false := by
    intro entry hentry
    cases hcase : entry.isLast with
    | false => rfl
    | true => exact absurd (h.last ⟨entry, hentry, hcase⟩) hrunning
  have hnone : s.trace.failures = [] := by
    refine List.filterMap_eq_nil_iff.mpr ?_
    intro entry hentry
    exact Entry.failure?_of_not_last (hgoes entry hentry)
  refine ⟨h.follows.step hreads, ?_, ?_, ?_, ?_, ?_, ?_, ?_, ?_, ?_, ?_⟩
  · show (Trace.chunks (s.trace ++ [.read r])).flatten ++ c'.inbound.unread = s.sent ++ []
    rw [Trace.chunks_append, List.flatten_append, List.append_assoc, sent_of_reads hreads, h.sent,
      List.append_nil]
  · show c'.exchange = (Trace.acts (s.trace ++ [.read r])).foldl Exchange.act .opened
    rw [Trace.acts_append, List.foldl_append, ← h.exchange, hexchange]
  · show c'.notices = (Trace.announced (s.trace ++ [.read r])).foldl Notices.send .empty
    rw [Trace.announced_append, List.foldl_append, ← h.notices, hnotices]
  · show Trace.delivered (s.trace ++ [.read r]) =
      (Trace.frames (s.trace ++ [.read r])).filterMap Frame.envelope?
    rw [Trace.delivered_append, h.delivered, Trace.delivered_read, Trace.frames_append,
      List.filterMap_append]
  · show Trace.announced (s.trace ++ [.read r]) =
      (Trace.frames (s.trace ++ [.read r])).filterMap Frame.notice? ++
        Trace.failures (s.trace ++ [.read r])
    rw [Trace.announced_append, h.announced, Trace.announced_read, Trace.frames_append,
      List.filterMap_append, Trace.failures_append, hnone]
    simp
  · show (Trace.failures (s.trace ++ [.read r])).length ≤ 1
    rw [Trace.failures_append, hnone, List.nil_append]
    exact List.length_filterMap_le _ _
  · rintro ⟨entry, hentry, hyes⟩
    rcases List.mem_append.mp hentry with hentry | hentry
    · cases (hgoes entry hentry).symm.trans hyes
    · rw [List.mem_singleton.mp hentry] at hyes
      exact hlast hyes
  · exact .concat hgoes (h.follows.all_of_last hreads)
  · intro other hother hyes
    rcases List.mem_append.mp hother with hother | hother
    · cases (hgoes _ hother).symm.trans hyes
    · cases List.mem_singleton.mp hother
      exact closed_of_reads hreads hyes
  · intro hcause
    obtain ⟨hopen, hcancelled⟩ :=
      h.stays fun entry hentry => hcause entry (List.mem_append_left _ hentry)
    exact stays_of_reads h.follows hreads hopen hcancelled hcause

/-- What users do. -/
theorem Inv.user (h : s.Inv) {event : Event} (haside : Aside s.connection event)
    (hwritten : written event = []) : (s.step event).Inv := by
  obtain ⟨outbound, turns, nextTurn, cancelled, hsame⟩ := haside.same
  refine h.aside haside.entries.unread haside.entries.delivered ?_ ?_
    (.inl ⟨haside.entries.stays, ?_⟩) ?_ haside.cancelled
  · rw [hsame]
  · rw [hsame]
  · rw [hsame]
  · rw [hsame, hwritten, List.append_nil]

/-- What happens to the transport. -/
theorem Inv.transport (h : s.Inv) {what : Incident} {inbound : Inbound} {outbound : Outbound}
    (hbefall : s.connection.befall what = { s.connection with inbound, outbound })
    (hentries : entries s.connection (.incident what) = [])
    (hunread : inbound.unread = s.connection.inbound.unread ++ written (.incident what)) :
    (s.step (.incident what)).Inv := by
  show Inv ⟨s.connection.befall what, s.trace ++ entries s.connection (.incident what),
    s.sent ++ written (.incident what)⟩
  rw [hbefall, hentries]
  exact h.aside (fun _ => List.not_mem_nil) rfl rfl rfl (.inl ⟨List.not_mem_nil, rfl⟩) hunread .inl

theorem Inv.incident (h : s.Inv) (what : Incident) : (s.step (.incident what)).Inv := by
  have hnothing : s.connection.inbound.unread = s.connection.inbound.unread ++ [] :=
    (List.append_nil _).symm
  cases what with
  | peerWrites bytes => exact h.transport rfl rfl rfl
  | peerReads count => exact h.transport rfl rfl hnothing
  | peerEnds => exact h.transport rfl rfl hnothing
  | peerAbandons => exact h.transport rfl rfl hnothing
  | trap operation trap => cases operation <;> exact h.transport rfl rfl hnothing
  | abort =>
    have hunread : ∀ r, Entry.read r ∉ [Entry.vanished] := by simp
    exact h.aside hunread rfl rfl rfl (.inr ⟨List.mem_singleton_self _, rfl⟩) hnothing .inl
  | reader =>
    show Inv ⟨s.connection.readerStep.getD s.connection,
      s.trace ++ (s.connection.reading?.map Entry.read).toList, s.sent ++ []⟩
    cases hstep : s.connection.readerStep with
    | none =>
      rw [reading?_of_rest hstep]
      exact h.aside (fun _ => List.not_mem_nil) rfl rfl rfl (.inl ⟨List.not_mem_nil, rfl⟩) hnothing
        .inl
    | some c' =>
      obtain ⟨r, hreading, hreads⟩ := reads_readerStep hstep
      rw [hreading]
      exact h.reads hreads

theorem Inv.step (h : s.Inv) (event : Event) : (s.step event).Inv := by
  rcases aside_happen s.connection event with ⟨haside, hwritten⟩ | ⟨what, rfl⟩
  · exact h.user haside hwritten
  · exact h.incident what

theorem Inv.run (h : s.Inv) (events : List Event) : (s.run events).Inv := by
  induction events generalizing s with
  | nil => exact h
  | cons event events ih => exact ih (h.step event)

/-! ### Every run -/

/-- In every run the chunks that were read are the front of what the peer has written, and the reader
takes from them what the codec finds, in its order: a part of it, and all of it when it comes to rest
without having been told to stop. The envelopes among the frames, and nothing else, are handed to the
exchange, in between what others do to it; every malformed frame is announced once, and besides that
only a read that fails. Whatever is read, the connection is open until the stream ends, a read fails,
or somebody closes it. The reader closes it for the end of the stream, or behind a read that fails,
when everything before has been taken. -/
theorem reader_follows_codec (peer : String) (capacity : Option Nat) (events : List Event) :
    let s := (start peer capacity).run events
    let t := s.trace
    t.chunks.flatten ++ s.connection.inbound.unread = s.sent ∧
    t.frames <+: t.codec ∧
    (s.connection.readerStep = none → .read .stop ∉ t → .vanished ∉ t → t.frames = t.codec) ∧
    s.connection.exchange = t.acts.foldl Exchange.act .opened ∧
    t.delivered = t.frames.filterMap Frame.envelope? ∧
    s.connection.notices = t.announced.foldl Notices.send .empty ∧
    t.announced = t.frames.filterMap Frame.notice? ++ t.failures ∧
    t.failures.length ≤ 1 ∧
    ((∀ entry ∈ t, entry.isCause = false) → s.connection.status = .open) ∧
    (∀ r, .read r ∈ t → (Entry.read r).isLast = true → s.connection.status = .closed) ∧
    t.EndsWhole := by
  intro s t
  have hinv : s.Inv := (inv_start peer capacity).run events
  refine ⟨hinv.sent, hinv.follows.front, ?_, hinv.exchange, hinv.delivered, hinv.notices,
    hinv.announced, hinv.once, ?_, hinv.closed, hinv.ends⟩
  · intro hrest hstop hvanished
    have hfollows := hinv.follows
    cases hreader : s.connection.reader with
    | running intake readable atEnd =>
      rw [hreader, not_readable_of_rest hrest hreader] at hfollows
      exact hfollows.all_of_waits
    | ended =>
      rw [hreader] at hfollows
      cases hfollows with
      | ended hfront hall =>
        exact (hall.resolve_left hstop).resolve_left hvanished
  · intro hcause
    exact (hinv.stays hcause).1

end Reception

end EnvelopeClient
