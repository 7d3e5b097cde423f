import EnvelopeClient.Toml.Reader

/-!
# The trees of documents

A tree is *proper* if no table of it has a key twice, every integer fits 64 bits with a sign, and
no list of tables is empty. Every tree that comes out of a text is proper (`proper_of_ofText`): each
rule of the grammar yields proper values (`Grammar.Yields`), and each statement keeps the tree that
is being built proper (`Draft.proper_add`).
-/

namespace EnvelopeClient.Toml

/-- A proper part of a tree. -/
inductive Item.Proper : Item → Prop
  | string (span : Span) (s : String) : Proper (.string span s)
  | integer (span : Span) {n : Int} (h : fitsInteger n = true) : Proper (.integer span n)
  | float (span : Span) (x : Float) : Proper (.float span x)
  | boolean (span : Span) (b : Bool) : Proper (.boolean span b)
  | datetime (span : Span) : Proper (.datetime span)
  | array (span : Span) {items : List Item} (h : ∀ item ∈ items, Proper item) :
      Proper (.array span items)
  | table {t : Entries Item} (hkeys : (t.list.map (·.1)).Nodup)
      (h : ∀ entry ∈ t.list, Proper entry.2.2) : Proper (.table t)
  | tables {list : List (Entries Item)} (hne : list ≠ []) (h : ∀ t ∈ list, Proper (.table t)) :
      Proper (.tables list)

/-- A proper table. -/
abbrev Table.Proper (t : Table) : Prop := (Item.table t).Proper

variable {t : Table} {key : String} {span : Span} {item : Item}

theorem proper_table : t.Proper ↔ (t.list.map (·.1)).Nodup ∧ ∀ entry ∈ t.list, entry.2.2.Proper := by
  constructor
  · intro h
    cases h with
    | table hkeys h => exact ⟨hkeys, h⟩
  · rintro ⟨hkeys, h⟩
    exact .table hkeys h

/-! ### Keys -/

namespace Entries

theorem not_mem_of_find? (h : t.find? key = none) : key ∉ t.list.map (·.1) := by
  rw [find?, Option.map_eq_none_iff, List.lookup_eq_none_iff] at h
  intro hmem
  obtain ⟨entry, hentry, rfl⟩ := List.mem_map.mp hmem
  simpa using h entry hentry

theorem exists_of_find? (h : t.find? key = some item) : ∃ keySpan, (key, keySpan, item) ∈ t.list := by
  obtain ⟨⟨keySpan, found⟩, hlookup, rfl⟩ := Option.map_eq_some_iff.mp h
  obtain ⟨before, behind, hlist, -⟩ := List.lookup_eq_some_iff.mp hlookup
  exact ⟨keySpan, by rw [hlist]; simp⟩

end Entries

namespace Table

theorem Proper.find? (h : t.Proper) (hfind : t.find? key = some item) : item.Proper := by
  obtain ⟨keySpan, hmem⟩ := Entries.exists_of_find? hfind
  exact (proper_table.mp h).2 _ hmem

theorem proper_empty (span : Option Span) (origin : Origin) : Proper (.empty span origin) :=
  .table (by simp [Entries.empty]) (by simp [Entries.empty])

theorem Proper.append (h : t.Proper) (hfresh : t.find? key = none) (hitem : item.Proper) :
    Proper (t.append key span item) := by
  obtain ⟨hkeys, hitems⟩ := proper_table.mp h
  refine .table ?_ ?_
  · rw [Entries.append, List.map_append, List.nodup_append]
    refine ⟨hkeys, by simp, ?_⟩
    intro other hother last hlast heq
    obtain rfl : last = key := by simpa using hlast
    exact Entries.not_mem_of_find? hfresh (heq ▸ hother)
  · intro entry hentry
    rcases List.mem_append.mp hentry with hentry | hentry
    · exact hitems entry hentry
    · obtain rfl := List.mem_singleton.mp hentry
      exact hitem

theorem Proper.replace (h : t.Proper) (hitem : item.Proper) : Proper (t.replace key item) := by
  obtain ⟨hkeys, hitems⟩ := proper_table.mp h
  have hsame : (t.replace key item).list.map (·.1) = t.list.map (·.1) := by
    rw [Entries.replace, List.map_map]
    refine List.map_congr_left fun entry _ => ?_
    simp only [Function.comp]
    split <;> rfl
  refine .table (hsame ▸ hkeys) ?_
  intro entry hentry
  obtain ⟨⟨k, keySpan, old⟩, hold, rfl⟩ := List.mem_map.mp hentry
  by_cases hkey : k = key
  · simp only [if_pos hkey]
    exact hitem
  · simp only [if_neg hkey]
    exact hitems _ hold

theorem Proper.erase (h : t.Proper) (key : String) : Proper (t.erase key) := by
  obtain ⟨hkeys, hitems⟩ := proper_table.mp h
  refine .table ?_ fun entry hentry => hitems entry (List.mem_filter.mp hentry).1
  exact hkeys.sublist (List.filter_sublist.map _)

theorem find?_erase (t : Table) (key : String) : (t.erase key).find? key = none := by
  rw [Entries.find?, Option.map_eq_none_iff, List.lookup_eq_none_iff]
  intro entry hentry
  have hne : entry.1 ≠ key := by simpa using (List.mem_filter.mp hentry).2
  simpa using Ne.symm hne

/-! ### Statements -/

variable {act : Table → Option Table} {t' : Table}

theorem proper_updateLast {list list' : List Table} (hlist : ∀ t ∈ list, t.Proper)
    (hact : ∀ t t', t.Proper → act t = some t' → t'.Proper)
    (h : updateLast act list = some list') : list' ≠ [] ∧ ∀ t ∈ list', t.Proper := by
  induction list generalizing list' with
  | nil => cases h
  | cons first rest ih =>
    cases rest with
    | nil =>
      obtain ⟨t', ht', rfl⟩ := Option.map_eq_some_iff.mp h
      refine ⟨by simp, fun t ht => ?_⟩
      obtain rfl := List.mem_singleton.mp ht
      exact hact first _ (hlist first (by simp)) ht'
    | cons second rest =>
      obtain ⟨rest', hrest', rfl⟩ := Option.map_eq_some_iff.mp h
      refine ⟨by simp, List.forall_mem_cons.mpr ⟨hlist first (by simp), ?_⟩⟩
      exact (ih (fun t ht => hlist t (List.mem_cons_of_mem _ ht)) hrest').2

/-- What is done at the end of a path leaves the tree proper if it leaves the table there so. -/
theorem proper_update {passage : Passage}
    (hact : ∀ t t', t.Proper → act t = some t' → t'.Proper) {path : List Key}
    (ht : t.Proper) (h : update passage act path t = some t') : t'.Proper := by
  induction path generalizing t t' with
  | nil => exact hact t t' ht h
  | cons key path ih =>
    rw [update] at h
    cases hfind : t.find? key.name with
    | none =>
      rw [hfind] at h
      obtain ⟨child, hchild, heq⟩ := Option.bind_eq_some_iff.mp h
      cases heq
      exact ht.append hfind (ih (proper_empty _ _) hchild)
    | some found =>
      rw [hfind] at h
      have hfound := ht.find? hfind
      cases found with
      | table child =>
        simp only at h
        split at h
        · obtain ⟨child', hchild', heq⟩ := Option.bind_eq_some_iff.mp h
          cases heq
          exact ht.replace (ih hfound hchild')
        · cases h
      | tables list =>
        obtain ⟨list', hlist', heq⟩ := Option.bind_eq_some_iff.mp h
        cases heq
        cases hfound with
        | tables hne hlist =>
          obtain ⟨hne', hall⟩ := proper_updateLast hlist (fun t t' ht h => ih ht h) hlist'
          exact ht.replace (.tables hne' hall)
      | _ => cases h

theorem proper_setValue {behindPath : Bool} {key : Key} (hitem : item.Proper) (ht : t.Proper)
    (h : setValue behindPath key item t = some t') : t'.Proper := by
  unfold setValue at h
  split at h
  · cases h
  · split at h
    · cases h
    · next hfresh =>
      cases h
      exact ht.append hfresh hitem

theorem proper_setPair {path : List Key} {key : Key} (hitem : item.Proper) (ht : t.Proper)
    (h : setPair path key item t = some t') : t'.Proper :=
  proper_update (fun _ _ ht h => proper_setValue hitem ht h) ht h

theorem proper_openTable {key : Key} (ht : t.Proper) (h : openTable key span t = some t') :
    t'.Proper := by
  unfold openTable at h
  split at h
  · next hfresh =>
    cases h
    exact ht.append hfresh (proper_empty _ _)
  · next child hfind =>
    split at h
    · cases h
      obtain ⟨hkeys, hitems⟩ := proper_table.mp (ht.find? hfind)
      exact (ht.erase _).append (find?_erase t _) (.table hkeys hitems)
    · cases h
  · cases h

theorem proper_openTables {key : Key} (ht : t.Proper) (h : openTables key span t = some t') :
    t'.Proper := by
  unfold openTables at h
  split at h
  · next hfresh =>
    cases h
    refine ht.append hfresh (.tables (by simp) fun t ht => ?_)
    obtain rfl := List.mem_singleton.mp ht
    exact proper_empty _ _
  · next list hfind =>
    cases h
    cases ht.find? hfind with
    | tables hne hlist =>
      refine ht.replace (.tables (by simp) fun t ht => ?_)
      rcases List.mem_append.mp ht with ht | ht
      · exact hlist t ht
      · obtain rfl := List.mem_singleton.mp ht
        exact proper_empty _ _
  · cases h

theorem Proper.stretch (ht : t.Proper) (value : Item) : Proper (stretch value t) := by
  obtain ⟨hkeys, hitems⟩ := proper_table.mp ht
  unfold Table.stretch
  split
  · exact .table hkeys hitems
  · exact ht

end Table

/-- What holds at first and after every step holds at the end. -/
theorem foldlM_invariant {α β : Type} {f : β → α → Option β} {P : β → Prop} {list : List α}
    {b b' : β} (hstep : ∀ a ∈ list, ∀ b b', P b → f b a = some b' → P b') (hb : P b)
    (h : list.foldlM f b = some b') : P b' := by
  induction list generalizing b with
  | nil =>
    cases h
    exact hb
  | cons a list ih =>
    obtain ⟨c, hc, hrest⟩ := Option.bind_eq_some_iff.mp h
    exact ih (fun a ha => hstep a (List.mem_cons_of_mem _ ha)) (hstep a List.mem_cons_self b c hb hc)
      hrest

theorem Table.proper_ofPairs {pairs : List (List Key × Key × Item)}
    (hpairs : ∀ p ∈ pairs, p.2.2.Proper) (h : Table.ofPairs span pairs = some t) : t.Proper :=
  foldlM_invariant (P := Table.Proper) (fun p hp _ _ ht h => proper_setPair (hpairs p hp) ht h)
    (proper_empty _ _) h

/-- A statement whose value is proper. -/
def Statement.Proper : Statement → Prop
  | .pair _ _ value => value.Proper
  | .table _ _ _ | .tables _ _ _ => True

namespace Draft

theorem proper_add {d d' : Draft} {s : Statement} (hs : s.Proper) (hd : d.tree.Proper)
    (h : d.add s = some d') : d'.tree.Proper := by
  cases s with
  | pair path key value =>
    obtain ⟨tree, htree, heq⟩ := Option.bind_eq_some_iff.mp h
    cases heq
    exact Table.proper_update
      (fun _ _ ht h => Table.proper_setPair hs (ht.stretch value) h) hd htree
  | table path key span =>
    obtain ⟨tree, htree, heq⟩ := Option.bind_eq_some_iff.mp h
    cases heq
    exact Table.proper_update (fun _ _ ht h => Table.proper_openTable ht h) hd htree
  | tables path key span =>
    obtain ⟨tree, htree, heq⟩ := Option.bind_eq_some_iff.mp h
    cases heq
    exact Table.proper_update (fun _ _ ht h => Table.proper_openTables ht h) hd htree

end Draft

theorem Table.proper_ofList {statements : List Statement} (hall : ∀ s ∈ statements, s.Proper)
    (h : Table.ofList statements = some t) : t.Proper := by
  obtain ⟨d, hd, rfl⟩ := Option.map_eq_some_iff.mp h
  exact foldlM_invariant (P := fun d => d.tree.Proper)
    (fun s hs _ _ hd h => Draft.proper_add (hall s hs) hd h) (Table.proper_empty _ _) hd

/-! ### The grammar -/

namespace Grammar

variable {α β : Type} {p q : Grammar α} {P : α → Prop} {Q : β → Prop}

/-- Whatever a grammar finds has a property. -/
def Yields (p : Grammar α) (P : α → Prop) : Prop :=
  ∀ c found, p c = some found → P found.1

theorem yields_true (p : Grammar α) : Yields p fun _ => True := fun _ _ _ => trivial

theorem yields_pure {a : α} (h : P a) : Yields (pure a) P := by
  intro c found hfound
  cases hfound
  exact h

theorem yields_failure : Yields (failure : Grammar α) P := by
  intro c found hfound
  cases hfound

theorem Yields.bind {f : α → Grammar β} (hp : Yields p P) (hf : ∀ a, P a → Yields (f a) Q) :
    Yields (p >>= f) Q := by
  intro c found h
  obtain ⟨⟨a, c'⟩, ha, hrest⟩ := Option.bind_eq_some_iff.mp h
  exact hf a (hp c _ ha) c' found hrest

/-- What is found first does not matter. -/
theorem yields_bind {f : α → Grammar β} (hf : ∀ a, Yields (f a) Q) : Yields (p >>= f) Q :=
  (yields_true p).bind fun a _ => hf a

theorem Yields.orElse (hp : Yields p P) (hq : Yields q P) : Yields (p <|> q) P := by
  intro c found h
  have hor : ((p c) <|> (q c)) = some found := h
  cases hfirst : p c with
  | none =>
    rw [hfirst] at hor
    exact hq c found hor
  | some first =>
    rw [hfirst] at hor
    cases hor
    exact hp c found hfirst

theorem Yields.map {f : α → β} (hp : Yields p fun a => Q (f a)) : Yields (f <$> p) Q := by
  rw [map_eq_pure_bind]
  exact hp.bind fun a ha => yields_pure ha

theorem Yields.seqLeft {r : Grammar β} (hp : Yields p P) : Yields (p <* r) P := by
  rw [seqLeft_eq_bind]
  exact hp.bind fun a ha => yields_bind fun _ => yields_pure ha

theorem Yields.seqRight {r : Grammar β} (hp : Yields p P) : Yields (r *> p) P := by
  rw [seqRight_eq_bind]
  exact yields_bind fun _ => hp

theorem yields_require {condition : Bool} {f : Unit → Grammar β}
    (hf : condition = true → Yields (f ()) Q) : Yields (require condition >>= f) Q := by
  cases condition with
  | true => exact (yields_true (pure ())).bind fun _ _ => hf rfl
  | false =>
    intro c found h
    cases h

theorem Yields.many (hp : Yields p P) : Yields (many p) fun list => ∀ a ∈ list, P a := by
  have hfor (fuel : Nat) : Yields (manyFor p fuel) fun list => ∀ a ∈ list, P a := by
    induction fuel with
    | zero => exact yields_pure (by simp)
    | succ fuel ih =>
      refine .orElse ?_ (yields_pure (by simp))
      refine hp.bind fun first hfirst => ih.bind fun more hmore => yields_pure ?_
      exact List.forall_mem_cons.mpr ⟨hfirst, hmore⟩
  intro c found h
  exact hfor c.left c found h

theorem Yields.separated {separator : Grammar β} (hp : Yields p P) :
    Yields (separated p separator) fun list => ∀ a ∈ list, P a := by
  refine .orElse ?_ (yields_pure (by simp))
  refine hp.bind fun first hfirst => (hp.seqRight.many).bind fun more hmore => yields_pure ?_
  exact List.forall_mem_cons.mpr ⟨hfirst, hmore⟩

theorem Yields.spanned (hp : Yields p P) : Yields (spanned p) fun found => P found.2 :=
  yields_bind fun _ => hp.bind fun _ ha => yields_bind fun _ => yields_pure ha

/-- An integer fits. -/
theorem yields_integer : Yields integer fun n => fitsInteger n = true :=
  yields_bind fun _ => yields_require fun h => yields_pure h

theorem yields_scalar : Yields scalar Item.Proper := by
  refine yields_bind fun start => ?_
  refine Yields.bind (P := fun make => ∀ span, (make span).Proper) ?_
    fun make hmake => yields_bind fun stop => yields_pure (hmake _)
  refine .orElse ?_ (.orElse ?_ (.orElse ?_ (.orElse ?_ (.orElse ?_ ?_))))
  · exact yields_bind fun text => yields_pure fun span => .string span _
  · exact yields_bind fun _ => yields_pure fun span => .datetime span
  · exact yields_bind fun x => yields_pure fun span => .float span x
  · exact yields_integer.bind fun n hn => yields_pure fun span => .integer span hn
  · exact yields_bind fun _ => yields_pure fun span => .boolean span true
  · exact yields_bind fun _ => yields_pure fun span => .boolean span false

variable {value : Grammar Item}

theorem yields_array (hvalue : Yields value Item.Proper) : Yields (array value) Item.Proper := by
  refine Yields.bind (Yields.spanned (P := fun items => ∀ item ∈ items, item.Proper) ?_) ?_
  · refine yields_bind fun _ => (hvalue.seqRight.seqLeft.separated).bind fun items hitems => ?_
    split
    · exact yields_bind fun _ => yields_bind fun _ => yields_bind fun _ => yields_pure hitems
    · exact yields_bind fun _ => yields_bind fun _ => yields_pure hitems
  · rintro ⟨span, items⟩ hitems
    exact yields_pure (.array span hitems)

theorem yields_pair (hvalue : Yields value Item.Proper) :
    Yields (pair value) fun found => found.2.2.Proper := by
  refine yields_bind fun ⟨path, key⟩ => yields_bind fun _ => yields_bind fun _ => ?_
  exact hvalue.bind fun item hitem => yields_pure hitem

theorem yields_inlineTable (hvalue : Yields value Item.Proper) :
    Yields (inlineTable value) Item.Proper := by
  refine Yields.bind (Yields.spanned (P := fun pairs => ∀ p ∈ pairs, p.2.2.Proper) ?_) ?_
  · refine yields_bind fun _ => ((yields_pair hvalue).seqLeft.separated).bind fun pairs hpairs => ?_
    exact yields_bind fun _ => yields_bind fun _ => yields_pure hpairs
  · rintro ⟨span, pairs⟩ hpairs
    simp only
    split
    · next t ht => exact yields_pure (Table.proper_ofPairs hpairs ht)
    · exact yields_failure

theorem yields_valueWithin (depth : Nat) : Yields (valueWithin depth) Item.Proper := by
  induction depth with
  | zero => exact yields_scalar
  | succ depth ih => exact yields_scalar.orElse ((yields_array ih).orElse (yields_inlineTable ih))

theorem yields_statement : Yields statement Statement.Proper := by
  refine .orElse ?_ (.orElse ?_ ?_)
  · exact yields_bind fun ⟨span, path, key⟩ => yields_bind fun _ => yields_pure trivial
  · exact yields_bind fun ⟨span, path, key⟩ => yields_bind fun _ => yields_pure trivial
  · exact (yields_pair (yields_valueWithin nestingLimit)).bind fun ⟨path, key, item⟩ hitem =>
      yields_bind fun _ => yields_pure hitem

theorem yields_line : Yields line fun found => ∀ s ∈ found, s.Proper := by
  refine Yields.bind (P := fun found : Option Statement => ∀ s ∈ found, s.Proper) ?_
    fun found hfound => yields_bind fun _ => yields_pure hfound
  refine .orElse ?_ (.orElse ?_ ?_)
  · exact yields_bind fun _ => yields_bind fun _ => yields_pure (by simp)
  · exact yields_bind fun _ => yields_pure (by simp)
  · refine Yields.map fun c found h s hs => ?_
    cases hs
    exact yields_statement c found h

theorem yields_document : Yields document fun statements => ∀ s ∈ statements, s.Proper := by
  refine yields_bind fun _ => yields_bind fun _ => yields_line.many.bind fun lines hlines => ?_
  refine yields_bind fun _ => yields_pure fun s hs => ?_
  obtain ⟨found, hfound, hs⟩ := List.mem_filterMap.mp hs
  exact hlines found hfound s hs

end Grammar

/-- The tree of a text is proper. -/
theorem Table.proper_of_ofText {text : String} (h : Table.ofText text = some t) : t.Proper := by
  obtain ⟨⟨statements, c⟩, hfound, htree⟩ := Option.bind_eq_some_iff.mp h
  exact Table.proper_ofList (Grammar.yields_document _ _ hfound) htree

end EnvelopeClient.Toml
