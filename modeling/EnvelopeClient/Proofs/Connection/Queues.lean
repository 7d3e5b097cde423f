import EnvelopeClient.Connection.Registry

/-!
# The queues of a registry

The queues are kept in a list of tags. `Registry.Tidy` is what that list always is: each tag stands
in it once and no queue is empty. Of a tidy list only `Registry.lookupQueue` has to be known: setting
the queue of one tag leaves the queues of all others as they were (`lookupQueue_setQueue`).
-/

namespace EnvelopeClient.Registry

/-- Every tag has one queue, and every queue has somebody in it. -/
structure Tidy (queues : List (String × List Nat)) : Prop where
  nodup : (queues.map (·.1)).Nodup
  nonempty : ∀ q ∈ queues, q.2 ≠ []

theorem tidy_nil : Tidy [] := ⟨by simp, by simp⟩

theorem tidy_cons {q : String × List Nat} {queues : List (String × List Nat)} :
    Tidy (q :: queues) ↔ q.1 ∉ queues.map (·.1) ∧ q.2 ≠ [] ∧ Tidy queues := by
  constructor
  · rintro ⟨hnodup, hnonempty⟩
    rw [List.map_cons, List.nodup_cons] at hnodup
    exact ⟨hnodup.1, hnonempty q (by simp), hnodup.2, fun p hp => hnonempty p (by simp [hp])⟩
  · rintro ⟨hfresh, hq, hnodup, hnonempty⟩
    refine ⟨List.nodup_cons.mpr ⟨hfresh, hnodup⟩, ?_⟩
    intro p hp
    rcases List.mem_cons.mp hp with rfl | hp
    · exact hq
    · exact hnonempty p hp

/-- The queue of a tag. -/
def lookupQueue (queues : List (String × List Nat)) (tag : String) : List Nat :=
  (queues.lookup tag).getD []

theorem queue_eq (r : Registry) (tag : String) : r.queue tag = lookupQueue r.queues tag := rfl

theorem lookupQueue_cons (q : String × List Nat) (queues : List (String × List Nat))
    (tag : String) :
    lookupQueue (q :: queues) tag = if tag = q.1 then q.2 else lookupQueue queues tag := by
  rw [lookupQueue, List.lookup_cons]
  by_cases h : tag = q.1
  · simp [h]
  · simp only [beq_eq_false_iff_ne.mpr h, if_neg h]
    rfl

theorem lookupQueue_of_not_mem {queues : List (String × List Nat)} {tag : String}
    (h : tag ∉ queues.map (·.1)) : lookupQueue queues tag = [] := by
  induction queues with
  | nil => rfl
  | cons q queues ih =>
    simp only [List.map_cons, List.mem_cons, not_or] at h
    rw [lookupQueue_cons, if_neg h.1, ih h.2]

theorem lookupQueue_of_mem {queues : List (String × List Nat)} (h : Tidy queues) {tag : String}
    {ids : List Nat} (hmem : (tag, ids) ∈ queues) : lookupQueue queues tag = ids := by
  induction queues with
  | nil => cases hmem
  | cons q queues ih =>
    obtain ⟨hfresh, -, htail⟩ := tidy_cons.mp h
    rw [lookupQueue_cons]
    rcases List.mem_cons.mp hmem with rfl | hmem
    · exact if_pos rfl
    · have hkey : tag ∈ queues.map Prod.fst := List.mem_map_of_mem hmem
      have hne : tag ≠ q.1 := by
        rintro rfl
        exact hfresh hkey
      rw [if_neg hne, ih htail hmem]

/-- Everybody in the queue of a tag stands under that tag. -/
theorem mem_lookupQueue {queues : List (String × List Nat)} (h : Tidy queues) {tag : String}
    {id : Nat} : id ∈ lookupQueue queues tag ↔ ∃ ids, (tag, ids) ∈ queues ∧ id ∈ ids := by
  induction queues with
  | nil => simp [lookupQueue]
  | cons q queues ih =>
    obtain ⟨key, ids⟩ := q
    obtain ⟨hfresh, -, htail⟩ := tidy_cons.mp h
    rw [lookupQueue_cons]
    by_cases htag : tag = key
    · subst htag
      rw [if_pos rfl]
      constructor
      · intro hid
        exact ⟨ids, List.mem_cons_self, hid⟩
      · rintro ⟨others, hmem, hid⟩
        rcases List.mem_cons.mp hmem with heq | hmem
        · cases heq
          exact hid
        · -- a second queue of the tag
          exact absurd (List.mem_map_of_mem hmem) hfresh
    · rw [if_neg htag, ih htail]
      simp [htag]

/-- Of the pairs a close goes through, those of a tag are as many as its queue is long. -/
theorem countP_flatMap_queues {queues : List (String × List Nat)} (h : Tidy queues) (tag : String) :
    (queues.flatMap fun (event, ids) => ids.map fun id => (event, id)).countP (·.1 = tag) =
      (lookupQueue queues tag).length := by
  induction queues with
  | nil => rfl
  | cons q queues ih =>
    obtain ⟨key, ids⟩ := q
    obtain ⟨hfresh, -, htail⟩ := tidy_cons.mp h
    rw [List.flatMap_cons, List.countP_append, ih htail, List.countP_map, lookupQueue_cons]
    by_cases htag : tag = key
    · subst htag
      rw [if_pos rfl, lookupQueue_of_not_mem hfresh]
      simp [Function.comp_def]
    · rw [if_neg htag]
      simp [Function.comp_def, Ne.symm htag]

/-- A close fails as many waiters of a tag as are in its queue. -/
theorem countP_close {r : Registry} (h : Tidy r.queues) (tag : String) :
    r.close.1.countP (·.1 = tag) = (r.queue tag).length :=
  countP_flatMap_queues h tag

/-! ### Setting a queue -/

theorem mem_keys_setQueue {event tag : String} {ids : List Nat}
    {queues : List (String × List Nat)} (h : tag ∈ (setQueue event ids queues).map (·.1)) :
    tag = event ∨ tag ∈ queues.map (·.1) := by
  induction queues with
  | nil =>
    unfold setQueue at h
    split at h
    · simp at h
    · exact .inl (by simpa using h)
  | cons q queues ih =>
    unfold setQueue at h
    split at h
    · split at h
      · exact .inr (by simp [h])
      · exact .inr (by simpa using h)
    · rcases List.mem_cons.mp h with h | h
      · exact .inr (by simp [h])
      · exact (ih h).imp_right fun h => by simp [h]

/-- Setting a queue leaves the list tidy. -/
theorem tidy_setQueue {queues : List (String × List Nat)} (h : Tidy queues) (event : String)
    (ids : List Nat) : Tidy (setQueue event ids queues) := by
  induction queues with
  | nil =>
    rw [setQueue]
    by_cases hids : ids = []
    · simpa [hids] using tidy_nil
    · simpa [hids, List.isEmpty_iff] using tidy_cons.mpr ⟨by simp, hids, tidy_nil⟩
  | cons q queues ih =>
    obtain ⟨key, queue⟩ := q
    obtain ⟨hfresh, hqueue, htail⟩ := tidy_cons.mp h
    rw [setQueue]
    by_cases hkey : key = event
    · by_cases hids : ids = []
      · simpa [hkey, hids] using htail
      · simpa [hkey, hids, List.isEmpty_iff] using
          tidy_cons.mpr ⟨(hkey ▸ hfresh : event ∉ queues.map (·.1)), hids, htail⟩
    · rw [if_neg hkey]
      refine tidy_cons.mpr ⟨?_, hqueue, ih htail⟩
      intro hmem
      exact (mem_keys_setQueue hmem).elim hkey hfresh

/-- The queue that was set is there, and every other is as it was. -/
theorem lookupQueue_setQueue {queues : List (String × List Nat)} (h : Tidy queues)
    (event tag : String) (ids : List Nat) :
    lookupQueue (setQueue event ids queues) tag =
      if tag = event then ids else lookupQueue queues tag := by
  induction queues with
  | nil =>
    rw [setQueue]
    by_cases hids : ids = []
    · simp [hids, lookupQueue]
    · simp only [List.isEmpty_iff, if_neg hids, lookupQueue_cons]
  | cons q queues ih =>
    obtain ⟨key, queue⟩ := q
    obtain ⟨hfresh, -, htail⟩ := tidy_cons.mp h
    rw [setQueue]
    by_cases hkey : key = event
    · subst hkey
      by_cases htag : tag = key
      · subst htag
        by_cases hids : ids = [] <;>
          simp [hids, lookupQueue_cons, lookupQueue_of_not_mem hfresh]
      · by_cases hids : ids = [] <;> simp [hids, lookupQueue_cons, htag]
    · rw [if_neg hkey, lookupQueue_cons, lookupQueue_cons, ih htail]
      by_cases htag : tag = key
      · subst htag
        simp [hkey]
      · simp [htag]

/-- Taking out a queue that is not there changes nothing. -/
theorem setQueue_nil_of_lookupQueue {queues : List (String × List Nat)} (h : Tidy queues)
    {event : String} (hevent : lookupQueue queues event = []) :
    setQueue event [] queues = queues := by
  induction queues with
  | nil => rfl
  | cons q queues ih =>
    obtain ⟨-, hqueue, htail⟩ := tidy_cons.mp h
    rw [lookupQueue_cons] at hevent
    by_cases hkey : event = q.1
    · rw [if_pos hkey] at hevent
      exact absurd hevent hqueue
    · rw [if_neg hkey] at hevent
      rw [setQueue, if_neg (Ne.symm hkey), ih htail hevent]

end EnvelopeClient.Registry
