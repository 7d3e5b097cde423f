import EnvelopeClient.Proofs.Connection.Asking
import EnvelopeClient.Proofs.Service.System

/-!
# The waiters of requests that listen for error messages

The request sent as the `n`th has two waiters: number `2 * n` for its reply, and `2 * n + 1` for an
error message. `Exchange.Attends` says so, and that the responses handed over so far were given to
the waiters of the requests they answer. A response goes to the right waiter if its request still
waits and, should it be an error message, nobody older listens for one (`Attends.deliver`).
-/

namespace EnvelopeClient

open Json

namespace Response

/-- What a response gives to the waiter for the reply. -/
def toReply? (r : Response) : Option Reply := if r.refuses then none else some (.ok r.data)

/-- What a response gives to the waiter for an error message. -/
def toError? (r : Response) : Option Reply := if r.refuses then some (.ok r.data) else none

/-- What a request makes of what its waiters were given is the reply it has to end with. -/
theorem verdict?_eq (r : Response) : Call.verdict? r.toReply? r.toError? = some r.reply := by
  rw [toReply?, toError?, reply]
  cases r.refuses <;> rfl

end Response

namespace Exchange

/-- Two waiters for every request, given the responses handed over so far. -/
structure Attends (x : Exchange) (events : List String) (done : List Response) : Prop where
  length : x.mailboxes.length = 2 * events.length
  reply : ∀ {n event}, events[n]? = some event →
    x.eventOf (2 * n) = event ∧ x.outcome? (2 * n) = done[n]?.bind Response.toReply?
  error : ∀ {n event}, events[n]? = some event →
    x.eventOf (2 * n + 1) = Envelope.errorEvent ∧
      x.outcome? (2 * n + 1) = done[n]?.bind Response.toError?

variable {x y : Exchange} {events : List String} {done : List Response} {event : String}
  {r : Response}

theorem attends_opened : opened.Attends [] [] where
  length := rfl
  reply h := by simp at h
  error h := by simp at h

theorem Attends.keeps (h : x.Attends events done) (hy : x.Keeps y) : y.Attends events done where
  length := hy.length.trans h.length
  reply hn := by
    rw [hy.eventOf, hy.outcome?]
    exact h.reply hn
  error hn := by
    rw [hy.eventOf, hy.outcome?]
    exact h.error hn

/-- A waiter is one of those of a request. -/
theorem Attends.cases (h : x.Attends events done) {id : Nat} (hid : x.isWaiting id = true) :
    ∃ n event, events[n]? = some event ∧ (id = 2 * n ∨ id = 2 * n + 1) := by
  have hlt := lt_of_isWaiting hid
  rw [h.length] at hlt
  have hn : id / 2 < events.length := by omega
  exact ⟨id / 2, events[id / 2], List.getElem?_eq_getElem hn, by omega⟩

/-- The waiter a response is meant for. -/
def target (n : Nat) (r : Response) : Nat := if r.refuses then 2 * n + 1 else 2 * n

theorem even_eq_target {m n : Nat} : 2 * m = target n r ↔ m = n ∧ r.refuses = false := by
  rw [target]
  cases r.refuses with
  | true =>
    rw [if_pos rfl]
    exact ⟨fun h => by omega, fun h => by cases h.2⟩
  | false =>
    rw [if_neg Bool.false_ne_true]
    exact ⟨fun h => ⟨by omega, rfl⟩, fun h => by omega⟩

theorem odd_eq_target {m n : Nat} : 2 * m + 1 = target n r ↔ m = n ∧ r.refuses = true := by
  rw [target]
  cases r.refuses with
  | true =>
    rw [if_pos rfl]
    exact ⟨fun h => ⟨by omega, rfl⟩, fun h => by omega⟩
  | false =>
    rw [if_neg Bool.false_ne_true]
    exact ⟨fun h => by omega, fun h => by cases h.2⟩

theorem getElem?_concat {α : Type} (list : List α) (a : α) (n : Nat) :
    (list ++ [a])[n]? = if n = list.length then some a else list[n]? := by
  split
  · next heq => rw [heq, List.getElem?_concat_length]
  · next hne =>
    rcases Nat.lt_or_gt_of_ne hne with hlt | hgt
    · exact List.getElem?_append_left hlt
    · rw [List.getElem?_eq_none (by simp; omega), List.getElem?_eq_none (by omega)]

/-- The waiter a response is meant for is the first of those it can go to. -/
theorem Attends.waitingFor (h : x.Attends events done) (hdistinct : events.Nodup)
    (herror : Envelope.errorEvent ∉ events) {n : Nat} (hn : events[n]? = some event)
    (hwaits : x.isWaiting (target n r) = true)
    (hprompt : r.refuses = true → ∀ m < n, x.isWaiting (2 * m + 1) = false) :
    ∃ rest, x.waitingFor (r.message event).event = target n r :: rest := by
  have hmem : ∀ {m : Nat} {event : String}, events[m]? = some event →
      event ≠ Envelope.errorEvent := by
    intro m event hm heq
    exact herror (heq ▸ List.mem_of_getElem? hm)
  have hoccurs : x.eventOf (target n r) = (r.message event).event := by
    rw [target, Response.message]
    cases r.refuses with
    | true => exact (h.error hn).1
    | false => exact (h.reply hn).1
  refine waitingFor_eq_cons (mem_waitingFor.mpr ⟨hwaits, hoccurs⟩) ?_
  intro other hother
  obtain ⟨hwaiting, htag⟩ := mem_waitingFor.mp hother
  obtain ⟨m, event', hm, hcase⟩ := h.cases hwaiting
  rw [Response.message] at htag
  cases hrefuses : r.refuses with
  | true =>
    -- of those that listen for error messages, nobody older waits
    rw [target, if_pos hrefuses]
    rw [if_pos hrefuses] at htag
    rcases hcase with rfl | rfl
    · exact absurd ((h.reply hm).1.symm.trans htag) (hmem hm)
    · rcases Nat.lt_or_ge m n with hlt | hge
      · rw [hprompt hrefuses m hlt] at hwaiting
        cases hwaiting
      · omega
  | false =>
    -- nobody else waits for the tag
    rw [target, hrefuses]
    simp only [hrefuses] at htag
    rcases hcase with rfl | rfl
    · have heq : event' = event := (h.reply hm).1.symm.trans htag
      subst heq
      have hlt := (List.getElem?_eq_some_iff.mp hm).1
      obtain rfl : m = n := (List.getElem?_inj hlt hdistinct).mp (hm.trans hn.symm)
      exact Nat.le_refl _
    · exact absurd ((h.error hm).1.symm.trans htag).symm (hmem hn)

/-- A response that is handed over is given to the waiter it is meant for. -/
theorem Attends.deliver (h : x.Attends events done) (hsound : x.Sound) (hdistinct : events.Nodup)
    (herror : Envelope.errorEvent ∉ events) (hn : events[done.length]? = some event)
    (hwaits : x.isWaiting (target done.length r) = true)
    (hprompt : r.refuses = true → ∀ m < done.length, x.isWaiting (2 * m + 1) = false) :
    (x.deliver (r.message event)).2.Attends events (done ++ [r]) := by
  obtain ⟨rest, hq⟩ := h.waitingFor hdistinct herror hn hwaits hprompt
  have hoccurs := eventOf_deliver hsound (r.message event)
  have hgiven : ∀ id, (x.deliver (r.message event)).2.outcome? id =
      if id = target done.length r then some (.ok r.data) else x.outcome? id := by
    intro id
    rw [deliver_of_cons hsound hq, outcome?_withMailbox,
      List.getElem?_eq_getElem (lt_of_isWaiting hwaits)]
    rfl
  refine ⟨(length_deliver hsound _).trans h.length, ?_, ?_⟩
  · intro n event' hn'
    refine ⟨(hoccurs _).trans (h.reply hn').1, ?_⟩
    rw [hgiven, (h.reply hn').2, getElem?_concat]
    by_cases heq : n = done.length
    · subst heq
      cases hrefuses : r.refuses <;> simp [even_eq_target, hrefuses, Response.toReply?]
    · simp [even_eq_target, heq]
  · intro n event' hn'
    refine ⟨(hoccurs _).trans (h.error hn').1, ?_⟩
    rw [hgiven, (h.error hn').2, getElem?_concat]
    by_cases heq : n = done.length
    · subst heq
      cases hrefuses : r.refuses <;> simp [odd_eq_target, hrefuses, Response.toError?]
    · simp [odd_eq_target, heq]

/-- A request that is sent has two waiters behind all others. -/
theorem Attends.register (h : x.Attends events done) (hsound : x.Sound) (hopen : x.status = .open)
    (hdone : done.length ≤ events.length) (hevent : event ≠ Envelope.errorEvent) :
    ∃ z, Enlists event x (2 * events.length) (some (2 * events.length + 1)) z ∧
      z.Attends (events ++ [event]) done := by
  obtain ⟨y, hy⟩ := exists_extends hsound hopen event
  obtain ⟨z, hz⟩ := exists_extends hy.sound hy.isOpen Envelope.errorEvent
  have henlists := enlists_of_extends hevent hy hz
  have hevents := hz.eventOf
  simp only [hy.eventOf, hy.length, h.length] at hevents
  rw [hy.length, h.length] at henlists
  -- nobody has been given anything under a number that is still to be given out
  have hnew : ∀ id, 2 * events.length ≤ id → x.outcome? id = none := by
    intro id hid
    exact outcome?_of_length_le (h.length ▸ hid)
  have hdone' : done[events.length]? = none := List.getElem?_eq_none hdone
  refine ⟨z, henlists, ?_, ?_, ?_⟩
  · rw [hz.length, hy.length, h.length, List.length_append, List.length_singleton]
    omega
  · intro n event' hn
    rw [hevents, hz.outcome?, hy.outcome?]
    rcases getElem?_concat_cases hn with ⟨rfl, rfl⟩ | ⟨hlt, hn⟩
    · rw [if_neg (by omega), if_pos rfl, hdone']
      exact ⟨rfl, hnew _ (Nat.le_refl _)⟩
    · rw [if_neg (by omega), if_neg (by omega)]
      exact h.reply hn
  · intro n event' hn
    rw [hevents, hz.outcome?, hy.outcome?]
    rcases getElem?_concat_cases hn with ⟨rfl, rfl⟩ | ⟨hlt, hn⟩
    · rw [if_pos rfl, hdone']
      exact ⟨rfl, hnew _ (Nat.le_succ _)⟩
    · rw [if_neg (by omega), if_neg (by omega)]
      exact h.error hn

end Exchange

namespace Connection

open Exchange

variable {c : Connection} {events : List String} {done : List Response} {event : String} {n : Nat}

/-- A request that waits for its answer ends once the response to it has been handed over. -/
theorem pollHear_of_attends (h : c.exchange.Attends events done) (hgone : c.isGone = false)
    (hn : events[n]? = some event) (now : Nat) :
    Call.pollHear c now event (2 * n) (some (2 * n + 1)) none =
      match done[n]? with
      | some r =>
        (.finished (.reply r.reply), (c.dropWaiter? (some (2 * n + 1))).dropWaiter (2 * n))
      | none => (.pending (.hear event (2 * n) (some (2 * n + 1)) none), c) := by
  rw [Call.pollHear, Option.bind_some, outcome?_of_not_gone hgone, outcome?_of_not_gone hgone,
    (h.reply hn).2, (h.error hn).2]
  cases done[n]? with
  | some r => simp only [Option.bind_some, r.verdict?_eq]
  | none => rfl

end Connection

end EnvelopeClient
