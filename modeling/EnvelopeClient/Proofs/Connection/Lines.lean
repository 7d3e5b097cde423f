import EnvelopeClient.Proofs.Connection.Waiting
import Mathlib.Data.List.Nodup

/-!
# One line of waiters for each tag

A `Line` is a queue of one tag that knows of no other: the waiters of the tag by ticket, those that
wait in the order they came, and what each was given. Every tag of an exchange is such a line.
`line_run` says so for whole runs: however operations on many tags are mixed, with waiters dropped
before or after they were given something and queues that vanish and come back, the line of a tag is
the line run on the operations on that tag and the closes alone, and these get the same answers.
-/

namespace EnvelopeClient

open Json

/-- What the users of one tag can do, and the close that concerns all. -/
inductive Line.Event where
  | register
  | resolve (data : Value)
  | cancel (ticket : Nat)
  | close (reason : String)

/-- What the users of one tag learn from an operation. -/
inductive Line.Answer where
  | registered (ticket : Nat)
  | refused (failure : Failure)
  /-- Whether a message was handed to somebody. -/
  | handed (b : Bool)
  | cancelled
  /-- How many waiters of the tag a close failed. -/
  | closed (failed : Nat)

/-- The waiters of one tag, known by the order in which they came. -/
structure Line where
  tag : String
  status : Status
  /-- The tickets of those who wait, the oldest first. -/
  waiting : List Nat
  /-- What the holder of each ticket was given. -/
  given : List (Option Reply)

namespace Line

/-- A line nobody has come to yet. -/
def fresh (status : Status) (tag : String) : Line := ⟨tag, status, [], []⟩

/-- What an operation does to a line. -/
def after (l : Line) : Event → Line
  | .register =>
    if l.status = .open then
      { l with waiting := l.waiting ++ [l.given.length], given := l.given ++ [none] }
    else l
  | .resolve data =>
    match l.waiting with
    | [] => l
    | ticket :: rest =>
      { l with waiting := rest, given := l.given.set ticket (some (.ok data)) }
  | .cancel ticket => { l with waiting := l.waiting.filter (· ≠ ticket) }
  | .close reason =>
    { l with
      status := .closed
      waiting := []
      given := l.waiting.foldl (fun given ticket =>
        given.set ticket (some (.error (Exchange.closedFailure l.tag reason)))) l.given }

/-- What an operation answers. -/
def answer (l : Line) : Event → Answer
  | .register =>
    if l.status = .open then .registered l.given.length
    else .refused (.notConnected s!"cannot await '{l.tag}' in state {l.status.name}")
  | .resolve _ => .handed !l.waiting.isEmpty
  | .cancel _ => .cancelled
  | .close _ => .closed l.waiting.length

/-- The line behind operations. -/
def run (l : Line) (events : List Event) : Line := events.foldl after l

/-- All answers of operations, in their order. -/
def answers (l : Line) : List Event → List Answer
  | [] => []
  | event :: events => l.answer event :: (l.after event).answers events

end Line

namespace Exchange

/-- An operation on an exchange. A waiter that is dropped is named by its tag and its ticket, the
number of waiters that came before it under this tag. -/
inductive Op where
  | register (tag : String)
  | resolve (e : Envelope)
  | cancel (tag : String) (ticket : Nat)
  | close (reason : String)

/-- What an operation is to the line of a tag. -/
def Op.on? (tag : String) : Op → Option Line.Event
  | .register t => if t = tag then some .register else none
  | .resolve e => if e.event = tag then some (.resolve e.data) else none
  | .cancel t ticket => if t = tag then some (.cancel ticket) else none
  | .close reason => some (.close reason)

/-- An exchange with nobody waiting. -/
def fresh (status : Status) : Exchange := ⟨Registry.initial.setStatus status, []⟩

/-- What an operation does to an exchange. -/
def after (x : Exchange) : Op → Exchange
  | .register tag =>
    match x.register tag with
    | .ok (_, y) => y
    | .error _ => x
  | .resolve e => (x.deliver e).2
  | .cancel tag ticket =>
    match (x.idsOf tag)[ticket]? with
    | some id => x.cancel id
    | none => x
  | .close reason => x.close reason

/-- What an operation answers the users of a tag. -/
def answer (x : Exchange) (tag : String) : Op → Line.Answer
  | .register t =>
    match x.register t with
    | .ok (id, y) => .registered ((y.idsOf tag).idxOf id)
    | .error failure => .refused failure
  | .resolve e => .handed (x.deliver e).1
  | .cancel _ _ => .cancelled
  | .close _ => .closed (x.registry.close.1.countP (·.1 = tag))

/-- The exchange behind operations. -/
def run (x : Exchange) (ops : List Op) : Exchange := ops.foldl after x

/-- All answers of the operations that concern a tag, in their order. -/
def answers (x : Exchange) (tag : String) : List Op → List Line.Answer
  | [] => []
  | op :: ops =>
    match op.on? tag with
    | some _ => x.answer tag op :: (x.after op).answers tag ops
    | none => (x.after op).answers tag ops

/-- The line of a tag. -/
def line (x : Exchange) (tag : String) : Line :=
  ⟨tag, x.status, (x.registry.queue tag).map (x.idsOf tag).idxOf, (x.idsOf tag).map x.outcome?⟩

variable {x : Exchange}

theorem line_eq (h : x.Sound) (tag : String) :
    x.line tag = ⟨tag, x.status, (x.waitingFor tag).map (x.idsOf tag).idxOf,
      (x.idsOf tag).map x.outcome?⟩ := by
  rw [line, h.queue_eq]

/-! ### Tickets -/

/-- Giving something to one waiter sets what the holder of its ticket was given. -/
theorem map_ite_eq_set {ids : List Nat} (hnodup : ids.Nodup) {id : Nat} (hid : id ∈ ids)
    (f : Nat → Option Reply) (reply : Option Reply) :
    ids.map (fun other => if other = id then reply else f other) =
      (ids.map f).set (ids.idxOf id) reply := by
  induction ids with
  | nil => cases hid
  | cons first ids ih =>
    rw [List.nodup_cons] at hnodup
    by_cases heq : first = id
    · subst heq
      have hrest : ids.map (fun other => if other = first then reply else f other) = ids.map f := by
        refine List.map_congr_left ?_
        intro other hother
        have hne : other ≠ first := by
          rintro rfl
          exact hnodup.1 hother
        exact if_neg hne
      simp [hrest]
    · have hmem : id ∈ ids := (List.mem_cons.mp hid).resolve_left (Ne.symm heq)
      rw [List.map_cons, ih hnodup.2 hmem, List.idxOf_cons_ne _ heq]
      simp [heq]

/-- The same for several waiters, one after the other. -/
theorem map_ite_mem_eq_foldl_set {ids queue : List Nat} (hnodup : ids.Nodup)
    (hqueue : ∀ id ∈ queue, id ∈ ids) (f : Nat → Option Reply) (reply : Option Reply) :
    ids.map (fun id => if id ∈ queue then reply else f id) =
      (queue.map ids.idxOf).foldl (fun given ticket => given.set ticket reply) (ids.map f) := by
  induction queue generalizing f with
  | nil => simp
  | cons first queue ih =>
    have hrest : ∀ id ∈ queue, id ∈ ids := by
      intro id hid
      exact hqueue id (List.mem_cons_of_mem _ hid)
    rw [List.map_cons, List.foldl_cons, ← map_ite_eq_set hnodup (hqueue first (by simp)),
      ← ih hrest]
    refine List.map_congr_left ?_
    intro id _
    by_cases hmem : id ∈ queue
    · simp [hmem]
    · simp [hmem]

/-- The tickets of a queue without one waiter. -/
theorem map_idxOf_filter {ids queue : List Nat} (hqueue : ∀ id ∈ queue, id ∈ ids) (id : Nat) :
    (queue.filter (· ≠ id)).map ids.idxOf = (queue.map ids.idxOf).filter (· ≠ ids.idxOf id) := by
  rw [List.filter_map]
  congr 1
  refine List.filter_congr ?_
  intro other hother
  simp only [Function.comp_apply, ne_eq, List.idxOf_inj (hqueue other hother)]

theorem mem_idsOf_of_mem_waitingFor {tag : String} :
    ∀ id ∈ x.waitingFor tag, id ∈ x.idsOf tag := by
  intro id hid
  exact (List.mem_filter.mp hid).1

/-- The number of the next waiter is nobody's yet. -/
theorem length_notMem_idsOf (x : Exchange) (tag : String) : x.mailboxes.length ∉ x.idsOf tag := by
  intro hmem
  exact Nat.lt_irrefl _ (mem_idsOf.mp hmem).1

/-! ### What a change comes to on a line -/

/-- Changing a mailbox of another tag does not show. -/
theorem line_withMailbox_of_ne (h : x.Sound) {f : Mailbox → Mailbox} {registry : Registry}
    {id : Nat} {tag : String} (hevent : ∀ box, (f box).event = box.event)
    (hf : ∀ box, (f box).isWaiting = false) (hy : (x.withMailbox registry id f).Sound)
    (hstatus : registry.status = x.status) (htag : x.eventOf id ≠ tag) :
    (x.withMailbox registry id f).line tag = x.line tag := by
  have hne : ∀ other ∈ x.idsOf tag, other ≠ id := by
    rintro other hother rfl
    exact htag (mem_idsOf.mp hother).2
  have hwaiting : (x.waitingFor tag).filter (· ≠ id) = x.waitingFor tag := by
    refine List.filter_eq_self.mpr ?_
    intro other hother
    simpa using hne other (mem_idsOf_of_mem_waitingFor other hother)
  have hgiven : (x.idsOf tag).map (x.withMailbox registry id f).outcome? =
      (x.idsOf tag).map x.outcome? := by
    refine List.map_congr_left ?_
    intro other hother
    rw [outcome?_withMailbox, if_neg (hne other hother)]
  rw [line_eq hy, line_eq h, waitingFor_withMailbox hevent hf, idsOf_withMailbox hevent, hwaiting,
    hgiven]
  exact congrArg (Line.mk tag · _ _) hstatus

/-- Changing a mailbox of the tag itself takes its ticket out of the waiting ones, and sets what its
holder was given. -/
theorem line_withMailbox (h : x.Sound) {f : Mailbox → Mailbox} {registry : Registry}
    {id : Nat} {tag : String} {reply : Option Reply} (hevent : ∀ box, (f box).event = box.event)
    (hf : ∀ box, (f box).isWaiting = false) (hy : (x.withMailbox registry id f).Sound)
    (hstatus : registry.status = x.status) (hid : id ∈ x.idsOf tag)
    (hreply : ((x.mailboxes[id]?).bind fun box => (f box).outcome) = reply) :
    (x.withMailbox registry id f).line tag =
      { x.line tag with
        waiting := (x.line tag).waiting.filter (· ≠ (x.idsOf tag).idxOf id)
        given := (x.line tag).given.set ((x.idsOf tag).idxOf id) reply } := by
  have hgiven : (x.idsOf tag).map (x.withMailbox registry id f).outcome? =
      ((x.idsOf tag).map x.outcome?).set ((x.idsOf tag).idxOf id) reply := by
    rw [← map_ite_eq_set (x.nodup_idsOf tag) hid]
    refine List.map_congr_left ?_
    intro other _
    rw [outcome?_withMailbox, hreply]
  rw [line_eq hy, line_eq h, waitingFor_withMailbox hevent hf, idsOf_withMailbox hevent,
    map_idxOf_filter mem_idsOf_of_mem_waitingFor, hgiven]
  exact congrArg (Line.mk tag · _ _) hstatus

/-- A new waiter comes to the end of its own line and no other. -/
theorem line_register (h : x.Sound) {event : String} {id : Nat} {y : Exchange}
    (hy : x.register event = .ok (id, y)) (tag : String) :
    y.line tag =
      if event = tag then
        { x.line tag with
          waiting := (x.line tag).waiting ++ [(x.line tag).given.length]
          given := (x.line tag).given ++ [none] }
      else x.line tag := by
  have hsound := h.register hy
  obtain ⟨-, -, registry, rfl, hstatus⟩ := register_cases h hy
  have houtcome : (x.extended registry event).outcome? = x.outcome? :=
    funext fun id => outcome?_extended registry event id
  rw [line_eq hsound, line_eq h, waitingFor_extended, idsOf_extended, houtcome]
  show (⟨tag, registry.status, _, _⟩ : Line) = _
  rw [hstatus]
  by_cases htag : event = tag
  · subst htag
    have hnew := x.length_notMem_idsOf event
    -- the tickets given out before stay as they are
    have hold : (x.waitingFor event).map (x.idsOf event ++ [x.mailboxes.length]).idxOf =
        (x.waitingFor event).map (x.idsOf event).idxOf := by
      refine List.map_congr_left ?_
      intro id hid
      exact List.idxOf_append_of_mem (mem_idsOf_of_mem_waitingFor id hid)
    have houtcome : x.outcome? x.mailboxes.length = none := by
      simp [outcome?]
    simp [hold, houtcome, List.idxOf_append_of_notMem hnew]
  · simp [htag, Ne.symm htag]

/-- A message goes to the head of its own line. -/
theorem line_deliver (h : x.Sound) (e : Envelope) (tag : String) :
    (x.deliver e).2.line tag =
      if e.event = tag then (x.line tag).after (.resolve e.data) else x.line tag := by
  have hsound := h.deliver e
  cases hq : x.waitingFor e.event with
  | nil =>
    rw [deliver_of_nil h hq]
    split
    · next htag =>
      have hwaiting : (x.line tag).waiting = [] := by
        rw [line_eq h, ← htag, hq, List.map_nil]
      rw [Line.after, hwaiting]
    · rfl
  | cons id rest =>
    have hid : id ∈ x.waitingFor e.event := hq ▸ List.mem_cons_self
    have hevent : x.eventOf id = e.event := (mem_waitingFor.mp hid).2
    rw [deliver_of_cons h hq] at hsound ⊢
    by_cases htag : e.event = tag
    · subst htag
      have hwaiting : (x.line e.event).waiting =
          (x.idsOf e.event).idxOf id :: rest.map (x.idsOf e.event).idxOf := by
        rw [line_eq h, hq, List.map_cons]
      have hrest : (x.line e.event).waiting.filter (· ≠ (x.idsOf e.event).idxOf id) =
          rest.map (x.idsOf e.event).idxOf := by
        rw [line_eq h, ← map_idxOf_filter mem_idsOf_of_mem_waitingFor, filter_ne_of_cons hq]
      have hreply : ((x.mailboxes[id]?).bind fun box => (answered (.ok e.data) box).outcome) =
          some (.ok e.data) := by
        rw [List.getElem?_eq_getElem (mem_idsOf.mp (mem_idsOf_of_mem_waitingFor id hid)).1]
        rfl
      rw [if_pos rfl, line_withMailbox h (event_answered (.ok e.data))
        (isWaiting_answered _) hsound rfl (mem_idsOf_of_mem_waitingFor id hid) hreply, hrest,
        Line.after, hwaiting]
    · rw [if_neg htag]
      exact line_withMailbox_of_ne h (event_answered _) (isWaiting_answered _) hsound rfl
        (hevent ▸ htag)

/-- Dropping the holder of a ticket takes the ticket out of its own line. -/
theorem line_cancel (h : x.Sound) {event : String} {ticket id : Nat}
    (hid : (x.idsOf event)[ticket]? = some id) (tag : String) :
    (x.cancel id).line tag =
      if event = tag then (x.line tag).after (.cancel ticket) else x.line tag := by
  have hsound := h.cancel id
  have hmem : id ∈ x.idsOf event := List.mem_of_getElem? hid
  have hevent : x.eventOf id = event := (mem_idsOf.mp hmem).2
  rw [cancel_eq] at hsound ⊢
  by_cases htag : event = tag
  · subst htag
    have hticket : (x.idsOf event).idxOf id = ticket := by
      obtain ⟨hlt, rfl⟩ := List.getElem?_eq_some_iff.mp hid
      exact (x.nodup_idsOf event).idxOf_getElem ticket hlt
    have hgiven : (x.line event).given.set ((x.idsOf event).idxOf id) (x.outcome? id) =
        (x.line event).given := by
      rw [line_eq h, ← map_ite_eq_set (x.nodup_idsOf event) hmem]
      refine List.map_congr_left ?_
      intro other _
      split
      · next heq => rw [heq]
      · rfl
    have hkept : ((x.mailboxes[id]?).bind fun box => (released box).outcome) = x.outcome? id := rfl
    rw [if_pos rfl, line_withMailbox h event_released isWaiting_released hsound rfl hmem hkept,
      hgiven, hticket]
    rfl
  · rw [if_neg htag]
    exact line_withMailbox_of_ne h event_released isWaiting_released hsound rfl (hevent ▸ htag)

/-- No ticket waits that was never given out. -/
theorem cancel_unknown (h : x.Sound) {tag : String} {ticket : Nat}
    (hticket : (x.idsOf tag)[ticket]? = none) :
    (x.line tag).after (.cancel ticket) = x.line tag := by
  have hwaiting : (x.line tag).waiting.filter (· ≠ ticket) = (x.line tag).waiting := by
    rw [line_eq h]
    refine List.filter_eq_self.mpr ?_
    intro other hother
    obtain ⟨id, hid, rfl⟩ := List.mem_map.mp hother
    have hlt := List.idxOf_lt_length_of_mem (mem_idsOf_of_mem_waitingFor id hid)
    have hle := List.getElem?_eq_none_iff.mp hticket
    have hne : (x.idsOf tag).idxOf id ≠ ticket := by omega
    simpa using hne
  rw [Line.after, hwaiting]

/-- A close empties every line. -/
theorem line_close (h : x.Sound) (reason tag : String) :
    (x.close reason).line tag = (x.line tag).after (.close reason) := by
  have hgiven : (x.idsOf tag).map (x.close reason).outcome? =
      (x.idsOf tag).map fun id =>
        if id ∈ x.waitingFor tag then some (.error (closedFailure tag reason))
        else x.outcome? id := by
    refine List.map_congr_left ?_
    intro id hid
    have htag := (mem_idsOf.mp hid).2
    have hmem : id ∈ x.waitingFor tag ↔ x.isWaiting id = true := by
      rw [mem_waitingFor]
      exact and_iff_left htag
    simp only [outcome?_close h, hmem, htag]
  rw [line_eq h, line, idsOf_close h, hgiven, map_ite_mem_eq_foldl_set (x.nodup_idsOf tag)
    mem_idsOf_of_mem_waitingFor]
  rfl

/-! ### Operations and runs -/

theorem sound_fresh (status : Status) : (fresh status).Sound :=
  ⟨Registry.tidy_nil, rfl, fun _ => rfl, fun _ => rfl⟩

theorem Sound.after (h : x.Sound) (op : Op) : (x.after op).Sound := by
  cases op with
  | register tag =>
    rw [Exchange.after]
    cases hy : x.register tag with
    | ok y => exact h.register hy
    | error failure => exact h
  | resolve e => exact h.deliver e
  | cancel tag ticket =>
    rw [Exchange.after]
    cases (x.idsOf tag)[ticket]? with
    | some id => exact h.cancel id
    | none => exact h
  | close reason => exact h.close reason

/-- What an operation does to the line of a tag: nothing, or what it does to a line alone. -/
theorem line_after (h : x.Sound) (tag : String) (op : Op) :
    (x.after op).line tag = (op.on? tag).elim (x.line tag) (x.line tag).after := by
  cases op with
  | register event =>
    by_cases hopen : x.status = .open
    · have hy := register_of_open h hopen event
      have hline : (x.line tag).status = .open := hopen
      simp only [Exchange.after, hy, line_register h hy, Op.on?]
      by_cases htag : event = tag
      · simp [htag, Line.after, hline]
      · simp [htag]
    · have hline : (x.line tag).status ≠ .open := hopen
      simp only [Exchange.after, register_of_not_open hopen, Op.on?]
      by_cases htag : event = tag
      · simp [htag, Line.after, hline]
      · simp [htag]
  | resolve e =>
    rw [Exchange.after, line_deliver h, Op.on?]
    split <;> rfl
  | cancel event ticket =>
    by_cases htag : event = tag
    · subst htag
      cases hid : (x.idsOf event)[ticket]? with
      | some id => simp [Exchange.after, Op.on?, hid, line_cancel h hid]
      | none => simp [Exchange.after, Op.on?, hid, cancel_unknown h hid]
    · cases hid : (x.idsOf event)[ticket]? with
      | some id => simp [Exchange.after, Op.on?, hid, line_cancel h hid, htag]
      | none => simp [Exchange.after, Op.on?, hid, htag]
  | close reason => exact line_close h reason tag

/-- An operation on a tag answers what the line of the tag answers. -/
theorem answer_eq (h : x.Sound) {tag : String} {op : Op} {event : Line.Event}
    (hop : op.on? tag = some event) : x.answer tag op = (x.line tag).answer event := by
  have hwaiting : (x.line tag).waiting = (x.waitingFor tag).map (x.idsOf tag).idxOf := by
    rw [line_eq h]
  cases op with
  | register t =>
    obtain ⟨rfl, rfl⟩ : t = tag ∧ .register = event := by
      simpa [Op.on?] using hop
    by_cases hopen : x.status = .open
    · have hnew := x.length_notMem_idsOf t
      have hline : (x.line t).status = .open := hopen
      rw [Line.answer, if_pos hline]
      simp [answer, register_of_open h hopen, idsOf_extended, List.idxOf_append_of_notMem hnew,
        line]
    · have hline : (x.line t).status ≠ .open := hopen
      rw [answer, register_of_not_open hopen, Line.answer, if_neg hline]
      rfl
  | resolve e =>
    obtain ⟨rfl, rfl⟩ : e.event = tag ∧ .resolve e.data = event := by
      simpa [Op.on?] using hop
    rw [answer, Line.answer, hwaiting]
    cases hq : x.waitingFor e.event with
    | nil => rw [deliver_of_nil h hq]; rfl
    | cons id rest => rw [deliver_of_cons h hq]; rfl
  | cancel t ticket =>
    obtain ⟨rfl, rfl⟩ : t = tag ∧ .cancel ticket = event := by
      simpa [Op.on?] using hop
    rfl
  | close reason =>
    obtain rfl : .close reason = event := by
      simpa [Op.on?] using hop
    rw [answer, Line.answer, Registry.countP_close h.tidy, h.queue_eq, hwaiting, List.length_map]

theorem line_run_of_sound (h : x.Sound) (ops : List Op) (tag : String) :
    (x.run ops).line tag = (x.line tag).run (ops.filterMap (·.on? tag)) ∧
      x.answers tag ops = (x.line tag).answers (ops.filterMap (·.on? tag)) := by
  induction ops generalizing x with
  | nil => exact ⟨rfl, rfl⟩
  | cons op ops ih =>
    -- the exchange behind the operation is sound again, and its line is where the line has got to
    obtain ⟨hrun, hanswers⟩ := ih (h.after op)
    rw [line_after h] at hrun hanswers
    rw [run, List.foldl_cons, ← run, hrun, answers, hanswers]
    cases hop : op.on? tag with
    | none => simp [hop]
    | some event =>
      rw [List.filterMap_cons_some hop, answer_eq h hop]
      exact ⟨rfl, rfl⟩

/-- Whether an operation concerns a tag. -/
def Op.concerns (tag : String) (op : Op) : Bool := (op.on? tag).isSome

/-- What does not concern a tag leaves no trace on its line. -/
theorem filterMap_filter_concerns (ops : List Op) (tag : String) :
    (ops.filter (·.concerns tag)).filterMap (·.on? tag) = ops.filterMap (·.on? tag) := by
  induction ops with
  | nil => rfl
  | cons op ops ih =>
    cases hop : op.on? tag with
    | none =>
      rw [List.filter_cons_of_neg (by simp [Op.concerns, hop]), ih, List.filterMap_cons_none hop]
    | some event =>
      rw [List.filter_cons_of_pos (by simp [Op.concerns, hop]), List.filterMap_cons_some hop,
        List.filterMap_cons_some hop, ih]

/-- Every tag of an exchange is a line of its own. Whatever is done, in any order and under any
tags, the line of a tag is what the operations on that tag and the closes make of a line alone, and
they get the answers of that line. So what the waiters of a tag are given is the same when nothing
is done under any other tag. -/
theorem line_run (status : Status) (ops : List Op) (tag : String) :
    ((fresh status).run ops).line tag =
        (Line.fresh status tag).run (ops.filterMap (·.on? tag)) ∧
      (fresh status).answers tag ops =
        (Line.fresh status tag).answers (ops.filterMap (·.on? tag)) ∧
      ((fresh status).run (ops.filter (·.concerns tag))).line tag =
        ((fresh status).run ops).line tag ∧
      (fresh status).answers tag (ops.filter (·.concerns tag)) =
        (fresh status).answers tag ops := by
  obtain ⟨hrun, hanswers⟩ := line_run_of_sound (sound_fresh status) ops tag
  obtain ⟨hrun', hanswers'⟩ :=
    line_run_of_sound (sound_fresh status) (ops.filter (·.concerns tag)) tag
  rw [filterMap_filter_concerns] at hrun' hanswers'
  exact ⟨hrun, hanswers, hrun'.trans hrun.symm, hanswers'.trans hanswers.symm⟩

end Exchange

end EnvelopeClient
