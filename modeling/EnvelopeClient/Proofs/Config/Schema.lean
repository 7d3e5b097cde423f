import Mathlib
import EnvelopeClient.Config.Load
import EnvelopeClient.Proofs.Toml.Tree

/-!
# What a configuration has to say

`Config.Says` tells without a reader what a document has to say for a configuration: it looks at what
stands under three keys, wherever in the document they are, and at nothing else. A text, or a file,
gives a configuration if and only if its tree says so, there is nothing in it but what the tree
says, and everything else is a failure of the configuration (`loads_what_is_said`).

The reader goes through the keys in their order and keeps what it has read so far. As no key is there
twice, each field is read once, and the order does not matter (`foldlM_readKey`).
-/

namespace EnvelopeClient.Config

open Toml

/-! ### Saying something -/

/-- The name of a mode in a document. -/
def keyword : ConnectionMode → String
  | .perRequest => "per_request"
  | .shared => "shared"

/-- A limit is a number of milliseconds; one that is not there is zero. -/
inductive SaysLimit : Option Item → Nat → Prop
  | absent : SaysLimit none 0
  | integer (span : Span) {ms : Nat} (h : ms ≤ 0x7fffffffffffffff) :
      SaysLimit (some (.integer span ms)) ms

/-- A table or an array with nothing in it. -/
inductive SaysNothing : Item → Prop
  | table {t : Table} (h : t.list = []) : SaysNothing (.table t)
  | array (span : Span) : SaysNothing (.array span [])

/-- A mode is its name, as a string or as the only key of a table, with nothing under it. -/
inductive SaysMode : Option Item → ConnectionMode → Prop
  | absent : SaysMode none .perRequest
  | name (span : Span) (mode : ConnectionMode) : SaysMode (some (.string span (keyword mode))) mode
  | key {t : Table} {mode : ConnectionMode} {keySpan : Span} {inner : Item}
      (h : t.list = [(keyword mode, keySpan, inner)]) (hinner : SaysNothing inner) :
      SaysMode (some (.table t)) mode

/-- The limits are a table, or an array of which the first two items count. A date says nothing. -/
inductive SaysTimeouts : Option Item → Timeouts → Prop
  | absent : SaysTimeouts none .none
  | table {t : Table} {connect request : Nat} (hconnect : SaysLimit (t.find? "connect_ms") connect)
      (hrequest : SaysLimit (t.find? "request_ms") request) :
      SaysTimeouts (some (.table t)) ⟨connect, request⟩
  | array (span : Span) {items : List Item} {connect request : Nat}
      (hconnect : SaysLimit items[0]? connect) (hrequest : SaysLimit items[1]? request) :
      SaysTimeouts (some (.array span items)) ⟨connect, request⟩
  | date (span : Span) : SaysTimeouts (some (.datetime span)) .none

/-- A document says a configuration. -/
structure Says (t : Table) (c : Config) : Prop where
  path : ∃ span, t.find? "socket_path" = some (.string span c.socketPath)
  usable : c.socketPath ≠ ""
  mode : SaysMode (t.find? "mode") c.mode
  timeouts : SaysTimeouts (t.find? "timeouts") c.timeouts

theorem saysLimit_none {ms : Nat} : SaysLimit none ms ↔ ms = 0 := by
  constructor
  · rintro ⟨⟩
    rfl
  · rintro rfl
    exact .absent

theorem saysMode_none {mode : ConnectionMode} : SaysMode none mode ↔ mode = .perRequest := by
  constructor
  · rintro ⟨⟩
    rfl
  · rintro rfl
    exact .absent

theorem saysTimeouts_none {t : Timeouts} : SaysTimeouts none t ↔ t = .none := by
  constructor
  · rintro ⟨⟩
    rfl
  · rintro rfl
    exact .absent

/-! ### Reading one item -/

section

variable {item : Item} {ms : Nat} {mode : ConnectionMode}

theorem within_ok {α : Type} {span : Option Span} {r : Except PlacedFault α} {a : α} :
    PlacedFault.within span r = .ok a ↔ r = .ok a := by
  cases r <;> simp [PlacedFault.within]

theorem map_ok {α β : Type} {r : Except PlacedFault α} {f : α → β} {b : β} :
    r.map f = .ok b ↔ ∃ a, r = .ok a ∧ f a = b := by
  cases r <;> simp [Except.map]

theorem bind_ok {ε α β : Type} {r : Except ε α} {f : α → Except ε β} {b : β} :
    r >>= f = .ok b ↔ ∃ a, r = .ok a ∧ f a = .ok b := by
  cases r <;> simp [bind, Except.bind]

theorem blame_ne_ok {α : Type} {fault : ConfigFault} {a : α} : blame item fault ≠ .ok a := by
  intro h
  cases h

theorem readPath_ok {path : String} :
    readPath item = .ok path ↔ ∃ span, item = .string span path := by
  cases item with
  | string span s => simp [readPath]
  | _ => simp [readPath, blame_ne_ok]

theorem readMilliseconds_ok (h : item.Proper) :
    readMilliseconds item = .ok ms ↔ SaysLimit (some item) ms := by
  constructor
  · intro hread
    cases h with
    | @integer span n hfits =>
      rw [readMilliseconds] at hread
      split at hread
      · next hsign =>
        cases hread
        obtain ⟨k, rfl⟩ := Int.eq_ofNat_of_zero_le hsign
        simp only [fitsInteger, Bool.and_eq_true, decide_eq_true_eq] at hfits
        have hle : k ≤ 0x7fffffffffffffff := by omega
        exact .integer span hle
      · cases hread
    | _ => exact absurd hread blame_ne_ok
  · intro hsaid
    cases hsaid
    simp [readMilliseconds]

theorem mode?_eq_some {name : String} : mode? name = some mode ↔ name = keyword mode := by
  unfold mode?
  split
  · cases mode <;> simp [keyword]
  · cases mode <;> simp [keyword]
  · next hfirst hsecond =>
    cases mode with
    | perRequest => simpa [keyword] using hfirst
    | shared => simpa [keyword] using hsecond

theorem readNothing_ok (h : item.Proper) : readNothing item = .ok () ↔ SaysNothing item := by
  constructor
  · intro hread
    cases h with
    | @table t hkeys hitems =>
      rw [readNothing] at hread
      split at hread
      · next hempty => exact .table (List.isEmpty_iff.mp hempty)
      · cases hread
    | @array span items hitems =>
      rw [readNothing] at hread
      split at hread
      · next hempty =>
        obtain rfl := List.isEmpty_iff.mp hempty
        exact .array span
      · cases hread
    | @tables list hne hlist => simp [readNothing, hne, blame_ne_ok] at hread
    | _ => exact absurd hread blame_ne_ok
  · intro hsaid
    cases hsaid with
    | table hempty => simp [readNothing, hempty]
    | array span => rfl

theorem readMode_ok (h : item.Proper) : readMode item = .ok mode ↔ SaysMode (some item) mode := by
  constructor
  · intro hread
    cases h with
    | string span name =>
      rw [readMode] at hread
      split at hread
      · next hmode =>
        cases hread
        rw [mode?_eq_some.mp hmode]
        exact .name span _
      · cases hread
    | @table t hkeys hitems =>
      rw [readMode, within_ok] at hread
      split at hread
      · cases hread
      · next name keySpan inner hlist =>
        have hproper : inner.Proper := hitems (name, keySpan, inner) (by rw [hlist]; simp)
        split at hread
        · cases hread
        · next hmode =>
          obtain ⟨⟨⟩, hinner, rfl⟩ := map_ok.mp hread
          exact .key (by rw [hlist, mode?_eq_some.mp hmode]) ((readNothing_ok hproper).mp hinner)
      · cases hread
    | _ => exact absurd hread blame_ne_ok
  · intro hsaid
    cases hsaid with
    | name span mode => simp [readMode, mode?_eq_some.mpr rfl]
    | @key t mode keySpan inner hlist hinner =>
      have hproper : inner.Proper :=
        (proper_table.mp h).2 (keyword mode, keySpan, inner) (by rw [hlist]; simp)
      rw [readMode, within_ok, hlist]
      simp only [mode?_eq_some.mpr rfl]
      exact map_ok.mpr ⟨(), (readNothing_ok hproper).mpr hinner, rfl⟩

end

/-! ### Reading keys in their order -/

/-- What is under a key. -/
def under (list : List (String × Span × Item)) (key : String) : Option Item :=
  (list.lookup key).map (·.2)

/-- What a field is after what was found for it has been read; without anything it stays. -/
def Takes {α : Type} (read : Item → Except PlacedFault α) (found : Option Item) (old new : α) :
    Prop :=
  match found with
  | none => new = old
  | some item => read item = .ok new

section

variable {α : Type} {read : Item → Except PlacedFault α} {key name : String} {span : Span}
  {item : Item} {list : List (String × Span × Item)} {old new : α}

theorem under_of_not_mem (h : key ∉ list.map (·.1)) : under list key = none := by
  rw [under, Option.map_eq_none_iff, List.lookup_eq_none_iff]
  intro entry hentry
  have hne : key ≠ entry.1 := fun heq => h (heq ▸ List.mem_map_of_mem hentry)
  simpa using hne

/-- A field is read at its key and left alone at all others. -/
theorem takes_cons (hfresh : name ∉ list.map (·.1)) :
    (∃ mid, Takes read (if name = key then some item else none) old mid ∧
        Takes read (under list key) mid new) ↔
      Takes read (under ((name, span, item) :: list) key) old new := by
  by_cases hkey : name = key
  · subst hkey
    have hhere : under ((name, span, item) :: list) name = some item := by simp [under]
    rw [hhere, if_pos rfl, under_of_not_mem hfresh]
    constructor
    · rintro ⟨mid, hmid, hnew⟩
      obtain rfl : new = mid := hnew
      exact hmid
    · intro hnew
      exact ⟨new, hnew, rfl⟩
  · have hthere : under ((name, span, item) :: list) key = under list key := by
      rw [under, under, List.lookup_cons, beq_eq_false_iff_ne.mpr (Ne.symm hkey)]
    rw [hthere, if_neg hkey]
    constructor
    · rintro ⟨mid, hmid, hnew⟩
      obtain rfl : mid = old := hmid
      exact hnew
    · intro hnew
      exact ⟨old, rfl, hnew⟩

/-- What a field is after one reading is what the item says, where the reader reads what is said. -/
theorem takes_iff_said {found : Option Item} {Said : Option Item → α → Prop}
    (habsent : Said none new ↔ new = old)
    (hread : ∀ item ∈ found, (read item = .ok new ↔ Said (some item) new)) :
    Takes read found old new ↔ Said found new := by
  cases found with
  | none => exact habsent.symm
  | some item => exact hread item rfl

end

theorem readTimeout_ok {t t' : Timeouts} {key : String} {span : Span} {item : Item} :
    readTimeout t (key, span, item) = .ok t' ↔
      Takes readMilliseconds (if key = "connect_ms" then some item else none)
          t.connectMs t'.connectMs ∧
        Takes readMilliseconds (if key = "request_ms" then some item else none)
          t.requestMs t'.requestMs := by
  obtain ⟨connect, request⟩ := t
  obtain ⟨connect', request'⟩ := t'
  by_cases hconnect : key = "connect_ms"
  · subst hconnect
    rw [readTimeout, within_ok, if_pos rfl, if_neg (by decide), map_ok]
    constructor
    · rintro ⟨ms, hread, heq⟩
      cases heq
      exact ⟨hread, rfl⟩
    · rintro ⟨hread, hsame⟩
      cases hsame
      exact ⟨connect', hread, rfl⟩
  by_cases hrequest : key = "request_ms"
  · subst hrequest
    rw [readTimeout, within_ok, if_neg (by decide), if_pos rfl, map_ok]
    constructor
    · rintro ⟨ms, hread, heq⟩
      cases heq
      exact ⟨rfl, hread⟩
    · rintro ⟨hsame, hread⟩
      cases hsame
      exact ⟨request', hread, rfl⟩
  · rw [readTimeout.eq_3 _ _ _ _ hconnect hrequest, within_ok, if_neg hconnect, if_neg hrequest]
    constructor
    · intro heq
      cases heq
      exact ⟨rfl, rfl⟩
    · rintro ⟨hsame, hsame'⟩
      cases hsame
      cases hsame'
      rfl

/-- The limits of a table are read by their keys, in whatever order they stand. -/
theorem foldlM_readTimeout {list : List (String × Span × Item)}
    (hkeys : (list.map (·.1)).Nodup) {t t' : Timeouts} :
    list.foldlM readTimeout t = .ok t' ↔
      Takes readMilliseconds (under list "connect_ms") t.connectMs t'.connectMs ∧
        Takes readMilliseconds (under list "request_ms") t.requestMs t'.requestMs := by
  induction list generalizing t with
  | nil =>
    obtain ⟨connect, request⟩ := t
    obtain ⟨connect', request'⟩ := t'
    simp [Takes, under, eq_comm, pure, Except.pure]
  | cons entry list ih =>
    obtain ⟨name, span, item⟩ := entry
    obtain ⟨hfresh, hkeys⟩ := List.nodup_cons.mp hkeys
    rw [← takes_cons hfresh, ← takes_cons hfresh, List.foldlM_cons]
    constructor
    · intro h
      obtain ⟨mid, hmid, hrest⟩ := bind_ok.mp h
      obtain ⟨hconnect, hrequest⟩ := readTimeout_ok.mp hmid
      obtain ⟨hconnect', hrequest'⟩ := (ih hkeys).mp hrest
      exact ⟨⟨_, hconnect, hconnect'⟩, _, hrequest, hrequest'⟩
    · rintro ⟨⟨connect, hconnect, hconnect'⟩, request, hrequest, hrequest'⟩
      exact bind_ok.mpr ⟨⟨connect, request⟩, readTimeout_ok.mpr ⟨hconnect, hrequest⟩,
        (ih hkeys).mpr ⟨hconnect', hrequest'⟩⟩

theorem readKey_ok {c c' : Partial} {key : String} {span : Span} {item : Item} :
    readKey c (key, span, item) = .ok c' ↔
      Takes (fun item => (readPath item).map some) (if key = "socket_path" then some item else none)
          c.socketPath c'.socketPath ∧
        Takes readMode (if key = "mode" then some item else none) c.mode c'.mode ∧
        Takes readTimeouts (if key = "timeouts" then some item else none)
          c.timeouts c'.timeouts := by
  obtain ⟨path, mode, timeouts⟩ := c
  obtain ⟨path', mode', timeouts'⟩ := c'
  by_cases hpath : key = "socket_path"
  · subst hpath
    rw [readKey, within_ok, if_pos rfl, if_neg (by decide), if_neg (by decide), map_ok]
    constructor
    · rintro ⟨s, hread, heq⟩
      cases heq
      exact ⟨map_ok.mpr ⟨s, hread, rfl⟩, rfl, rfl⟩
    · rintro ⟨hread, hsame, hsame'⟩
      cases hsame
      cases hsame'
      obtain ⟨s, hs, heq⟩ := map_ok.mp hread
      cases heq
      exact ⟨s, hs, rfl⟩
  by_cases hmode : key = "mode"
  · subst hmode
    rw [readKey, within_ok, if_neg (by decide), if_pos rfl, if_neg (by decide), map_ok]
    constructor
    · rintro ⟨m, hread, heq⟩
      cases heq
      exact ⟨rfl, hread, rfl⟩
    · rintro ⟨hsame, hread, hsame'⟩
      cases hsame
      cases hsame'
      exact ⟨mode', hread, rfl⟩
  by_cases htimeouts : key = "timeouts"
  · subst htimeouts
    rw [readKey, within_ok, if_neg (by decide), if_neg (by decide), if_pos rfl, map_ok]
    constructor
    · rintro ⟨t, hread, heq⟩
      cases heq
      exact ⟨rfl, rfl, hread⟩
    · rintro ⟨hsame, hsame', hread⟩
      cases hsame
      cases hsame'
      exact ⟨timeouts', hread, rfl⟩
  · rw [readKey.eq_4 _ _ _ _ hpath hmode htimeouts, within_ok, if_neg hpath, if_neg hmode,
      if_neg htimeouts]
    constructor
    · intro heq
      cases heq
      exact ⟨rfl, rfl, rfl⟩
    · rintro ⟨hsame, hsame', hsame''⟩
      cases hsame
      cases hsame'
      cases hsame''
      rfl

/-- The keys of a document are read in whatever order they stand. -/
theorem foldlM_readKey {list : List (String × Span × Item)} (hkeys : (list.map (·.1)).Nodup)
    {c c' : Partial} :
    list.foldlM readKey c = .ok c' ↔
      Takes (fun item => (readPath item).map some) (under list "socket_path")
          c.socketPath c'.socketPath ∧
        Takes readMode (under list "mode") c.mode c'.mode ∧
        Takes readTimeouts (under list "timeouts") c.timeouts c'.timeouts := by
  induction list generalizing c with
  | nil =>
    obtain ⟨path, mode, timeouts⟩ := c
    obtain ⟨path', mode', timeouts'⟩ := c'
    simp [Takes, under, eq_comm, pure, Except.pure]
  | cons entry list ih =>
    obtain ⟨name, span, item⟩ := entry
    obtain ⟨hfresh, hkeys⟩ := List.nodup_cons.mp hkeys
    rw [← takes_cons hfresh, ← takes_cons hfresh, ← takes_cons hfresh, List.foldlM_cons]
    constructor
    · intro h
      obtain ⟨mid, hmid, hrest⟩ := bind_ok.mp h
      obtain ⟨hpath, hmode, htimeouts⟩ := readKey_ok.mp hmid
      obtain ⟨hpath', hmode', htimeouts'⟩ := (ih hkeys).mp hrest
      exact ⟨⟨_, hpath, hpath'⟩, ⟨_, hmode, hmode'⟩, _, htimeouts, htimeouts'⟩
    · rintro ⟨⟨path, hpath, hpath'⟩, ⟨mode, hmode, hmode'⟩, timeouts, htimeouts, htimeouts'⟩
      exact bind_ok.mpr ⟨⟨path, mode, timeouts⟩, readKey_ok.mpr ⟨hpath, hmode, htimeouts⟩,
        (ih hkeys).mpr ⟨hpath', hmode', htimeouts'⟩⟩

/-! ### The limits -/

/-- A limit that is read from what may be missing. -/
theorem takes_limit {found : Option Item} {ms : Nat} (h : ∀ item ∈ found, item.Proper) :
    Takes readMilliseconds found 0 ms ↔ SaysLimit found ms :=
  takes_iff_said saysLimit_none fun item hitem => readMilliseconds_ok (h item hitem)

theorem readTimeoutList_ok {items : List Item} (h : ∀ item ∈ items, item.Proper) {t : Timeouts} :
    readTimeoutList items = .ok t ↔
      SaysLimit items[0]? t.connectMs ∧ SaysLimit items[1]? t.requestMs := by
  have hlimit (i : Nat) (ms : Nat) : Takes readMilliseconds items[i]? 0 ms ↔ SaysLimit items[i]? ms :=
    takes_limit fun item hitem => h item (List.mem_of_getElem? hitem)
  rw [← hlimit, ← hlimit]
  obtain ⟨connect, request⟩ := t
  match items with
  | [] => simp [readTimeoutList, Timeouts.none, Takes, eq_comm]
  | [first] =>
    rw [readTimeoutList, map_ok]
    constructor
    · rintro ⟨ms, hread, heq⟩
      cases heq
      exact ⟨hread, rfl⟩
    · rintro ⟨hread, hsame⟩
      cases hsame
      exact ⟨connect, hread, rfl⟩
  | first :: second :: more =>
    rw [readTimeoutList, bind_ok]
    constructor
    · rintro ⟨ms, hread, hrest⟩
      obtain ⟨ms', hread', heq⟩ := bind_ok.mp hrest
      cases heq
      exact ⟨hread, hread'⟩
    · rintro ⟨hread, hread'⟩
      exact ⟨connect, hread, bind_ok.mpr ⟨request, hread', rfl⟩⟩

theorem readTimeouts_ok {item : Item} (h : item.Proper) {t : Timeouts} :
    readTimeouts item = .ok t ↔ SaysTimeouts (some item) t := by
  cases h with
  | @table table hkeys hitems =>
    have hfound (key : String) (item : Item) (hitem : item ∈ under table.list key) : item.Proper :=
      Table.Proper.find? (.table hkeys hitems) hitem
    rw [readTimeouts, within_ok, foldlM_readTimeout hkeys]
    show Takes _ _ 0 _ ∧ Takes _ _ 0 _ ↔ _
    rw [takes_limit (hfound _), takes_limit (hfound _)]
    constructor
    · rintro ⟨hconnect, hrequest⟩
      exact .table hconnect hrequest
    · intro hsaid
      cases hsaid with
      | table hconnect hrequest => exact ⟨hconnect, hrequest⟩
  | @array span items hitems =>
    rw [readTimeouts, within_ok, readTimeoutList_ok hitems]
    constructor
    · rintro ⟨hconnect, hrequest⟩
      exact .array span hconnect hrequest
    · intro hsaid
      cases hsaid with
      | array span hconnect hrequest => exact ⟨hconnect, hrequest⟩
  | datetime span =>
    constructor
    · intro heq
      cases heq
      exact .date span
    · intro hsaid
      cases hsaid
      rfl
  | @tables list hne hlist =>
    -- a list of tables has tables where the limits should be
    obtain ⟨first, rest, rfl⟩ := List.exists_cons_of_ne_nil hne
    constructor
    · intro hread
      have hitems : ∀ item ∈ (first :: rest).map Item.table, item.Proper := by
        intro item hitem
        obtain ⟨t, ht, rfl⟩ := List.mem_map.mp hitem
        exact hlist t ht
      obtain ⟨hconnect, -⟩ := (readTimeoutList_ok hitems).mp (within_ok.mp hread)
      cases hconnect
    · intro hsaid
      cases hsaid
  | _ =>
    constructor
    · intro hread
      exact absurd (within_ok.mp hread) blame_ne_ok
    · intro hsaid
      cases hsaid

/-! ### A whole document -/

theorem takes_path {found : Option Item} {path : Option String} :
    Takes (fun item => (readPath item).map some) found none path ↔
      (found = none ∧ path = none) ∨ ∃ span s, found = some (.string span s) ∧ path = some s := by
  cases found with
  | none => simp [Takes]
  | some item =>
    show (readPath item).map some = .ok path ↔ _
    rw [map_ok]
    constructor
    · rintro ⟨s, hread, rfl⟩
      obtain ⟨span, rfl⟩ := readPath_ok.mp hread
      exact .inr ⟨span, s, rfl, rfl⟩
    · rintro (⟨hnone, -⟩ | ⟨span, s, heq, rfl⟩)
      · cases hnone
      · cases heq
        exact ⟨s, rfl, rfl⟩

theorem takes_mode {found : Option Item} (h : ∀ item ∈ found, item.Proper)
    {mode : ConnectionMode} : Takes readMode found .perRequest mode ↔ SaysMode found mode :=
  takes_iff_said saysMode_none fun item hitem => readMode_ok (h item hitem)

theorem takes_timeouts {found : Option Item} (h : ∀ item ∈ found, item.Proper)
    {t : Timeouts} : Takes readTimeouts found .none t ↔ SaysTimeouts found t :=
  takes_iff_said saysTimeouts_none fun item hitem => readTimeouts_ok (h item hitem)

theorem validate_ok {c c' : Config} : c.validate = .ok c' ↔ c.socketPath ≠ "" ∧ c = c' := by
  rw [validate]
  by_cases hempty : c.socketPath = ""
  · simp [hempty]
  · simp [hempty]

theorem ofTable_ok {t : Table} (h : t.Proper) {c : Config} :
    ofTable t = .ok c ↔ (∃ span, t.find? "socket_path" = some (.string span c.socketPath)) ∧
      SaysMode (t.find? "mode") c.mode ∧ SaysTimeouts (t.find? "timeouts") c.timeouts := by
  obtain ⟨hkeys, -⟩ := proper_table.mp h
  have hfound (key : String) (item : Item) (hitem : item ∈ t.find? key) : item.Proper :=
    h.find? hitem
  rw [ofTable, within_ok, bind_ok, ← takes_mode (hfound _), ← takes_timeouts (hfound _)]
  obtain ⟨path, mode, timeouts⟩ := c
  constructor
  · rintro ⟨⟨found, mode', timeouts'⟩, hread, hrest⟩
    obtain ⟨hpath, hmode, htimeouts⟩ := (foldlM_readKey hkeys).mp hread
    rcases takes_path.mp hpath with ⟨-, rfl⟩ | ⟨span, s, hfind, rfl⟩
    · cases hrest
    · cases hrest
      exact ⟨⟨span, hfind⟩, hmode, htimeouts⟩
  · rintro ⟨⟨span, hpath⟩, hmode, htimeouts⟩
    refine ⟨⟨some path, mode, timeouts⟩, (foldlM_readKey hkeys).mpr ⟨?_, hmode, htimeouts⟩, rfl⟩
    exact takes_path.mpr (.inr ⟨span, path, hpath, rfl⟩)

/-- The configuration of a tree is the one the tree says. -/
theorem ofTree_ok {text : String} {t : Table} (h : t.Proper) {c : Config} :
    ofTree text t = .ok c ↔ Says t c := by
  constructor
  · intro hread
    rw [ofTree] at hread
    split at hread
    · next found hfound =>
      obtain ⟨husable, rfl⟩ := validate_ok.mp hread
      obtain ⟨hpath, hmode, htimeouts⟩ := (ofTable_ok h).mp hfound
      exact ⟨hpath, husable, hmode, htimeouts⟩
    · cases hread
  · intro hsaid
    have hfound := (ofTable_ok h).mpr ⟨hsaid.path, hsaid.mode, hsaid.timeouts⟩
    rw [ofTree, hfound]
    exact validate_ok.mpr ⟨hsaid.usable, rfl⟩

/-- Whatever is wrong with a tree, it is a failure of the configuration. -/
theorem ofTree_cases (text : String) (t : Table) :
    (∃ c, ofTree text t = .ok c) ∨ ∃ reason, ofTree text t = .error (.config reason) := by
  rw [ofTree]
  split
  · rw [validate]
    split
    · exact .inr ⟨_, rfl⟩
    · exact .inl ⟨_, rfl⟩
  · exact .inr ⟨_, rfl⟩

theorem ofText_ok {text : String} {c : Config} :
    ofText text = .ok c ↔ ∃ t, Table.ofText text = some t ∧ Says t c := by
  rw [ofText]
  cases htree : Table.ofText text with
  | none => simp
  | some t =>
    simp only [Option.some.injEq, exists_eq_left']
    exact ofTree_ok (Table.proper_of_ofText htree)

theorem ofText_cases (text : String) :
    (∃ c, ofText text = .ok c) ∨ ∃ reason, ofText text = .error (.config reason) := by
  rw [ofText]
  split
  · exact .inr ⟨_, rfl⟩
  · exact ofTree_cases text _

/-! ### Files -/

theorem encode_of_decode? {bytes : List UInt8} {text : String}
    (h : Utf8.decode? bytes = some text) : Utf8.encode text = bytes := by
  rw [Utf8.decode?, String.fromUTF8?] at h
  split at h
  · cases h
    simp [Utf8.encode, String.fromUTF8]
  · cases h

variable {files : Files} {path : String}

theorem load_of_text {text : String} (h : files.read path = .ok (Utf8.encode text)) :
    load files path = ofText text := by
  rw [load, h]
  simp only [ofFile, Utf8.decode?_encode]

theorem load_of_no_text (h : ∀ text, files.read path ≠ .ok (Utf8.encode text)) :
    ∃ reason, load files path = .error (.config reason) := by
  rw [load]
  cases hread : files.read path with
  | error fault => exact ⟨_, rfl⟩
  | ok bytes =>
    cases htext : Utf8.decode? bytes with
    | none =>
      refine ⟨"failed to read config: stream did not contain valid UTF-8", ?_⟩
      simp only [ofFile, htext]
    | some text => exact absurd hread (encode_of_decode? htext ▸ h text)

/-- **What a configuration has to say.** A tree gives a configuration if and only if it says one, and
then the one it says; every other tree is a failure of the configuration. A text gives what its tree
says, and a file what its text does; a text without a tree, and a file that cannot be read or is no
text, are failures of the configuration too. -/
theorem loads_what_is_said :
    (∀ (text : String) (t : Table), t.Proper →
      (∀ c, ofTree text t = .ok c ↔ Says t c) ∧
      ((∀ c, ¬Says t c) → ∃ reason, ofTree text t = .error (.config reason))) ∧
    (∀ text,
      (∀ c, ofText text = .ok c ↔ ∃ t, Table.ofText text = some t ∧ Says t c) ∧
      ((∀ t c, Table.ofText text = some t → ¬Says t c) →
        ∃ reason, ofText text = .error (.config reason))) ∧
    ∀ (files : Files) (path : String),
      (∀ text, files.read path = .ok (Utf8.encode text) → load files path = ofText text) ∧
      ((∀ text, files.read path ≠ .ok (Utf8.encode text)) →
        ∃ reason, load files path = .error (.config reason)) := by
  refine ⟨?_, ?_, ?_⟩
  · intro text t ht
    refine ⟨fun c => ofTree_ok ht, fun hnone => ?_⟩
    refine (ofTree_cases text t).resolve_left ?_
    rintro ⟨c, hc⟩
    exact hnone c ((ofTree_ok ht).mp hc)
  · intro text
    refine ⟨fun c => ofText_ok, fun hnone => ?_⟩
    refine (ofText_cases text).resolve_left ?_
    rintro ⟨c, hc⟩
    obtain ⟨t, ht, hsaid⟩ := ofText_ok.mp hc
    exact hnone t c ht hsaid
  · intro files path
    exact ⟨fun text => load_of_text, load_of_no_text⟩

/-- A tree whose limits come before the path and lack the one on connecting, and a key nobody
knows. -/
def unordered : Table := ⟨none, .header,
  [("timeouts", ⟨0, 0⟩, .table ⟨none, .inline, [("request_ms", ⟨0, 0⟩, .integer ⟨0, 0⟩ 5)]⟩),
    ("color", ⟨0, 0⟩, .boolean ⟨0, 0⟩ true), ("socket_path", ⟨0, 0⟩, .string ⟨0, 0⟩ "x")]⟩

theorem loads_what_is_said_unordered :
    unordered.Proper ∧ (∀ text, ofTree text unordered = .ok ⟨"x", .perRequest, ⟨0, 5⟩⟩) ∧
      ofText "mode = 1" ≠ .ok ⟨"x", .perRequest, ⟨0, 5⟩⟩ ∧
      ∃ reason, load [] "x" = .error (.config reason) := by
  have hproper : unordered.Proper := by
    refine .table (by decide) ?_
    simp only [unordered, List.forall_mem_cons, List.not_mem_nil, false_implies, implies_true,
      and_true]
    refine ⟨.table (by decide) ?_, .boolean _ _, .string _ _⟩
    simp only [List.forall_mem_cons, List.not_mem_nil, false_implies, implies_true, and_true]
    exact .integer _ rfl
  have hsaid : Says unordered ⟨"x", .perRequest, ⟨0, 5⟩⟩ :=
    ⟨⟨⟨0, 0⟩, rfl⟩, by decide, .absent, .table .absent (.integer _ (by decide))⟩
  obtain ⟨htree, htext, hfile⟩ := loads_what_is_said
  refine ⟨hproper, fun text => ((htree text unordered hproper).1 _).mpr hsaid, ?_, ?_⟩
  · intro heq
    obtain ⟨t, ht, hsaid⟩ := ((htext _).1 _).mp heq
    obtain ⟨span, hpath⟩ := hsaid.path
    have hnone : (Table.ofText "mode = 1").bind (·.find? "socket_path") = none := by cbv
    rw [ht, Option.bind_some, hpath] at hnone
    cases hnone
  · refine (hfile [] "x").2 fun text hread => ?_
    cases hread

/-- Limits as an array, of which the third item is not looked at. -/
def listed : String := "socket_path = \"x\"\ntimeouts = [1, 2, \"a\"]"

/-- A date where the limits should be. -/
def dated : String := "socket_path = \"x\"\ntimeouts = 2000-01-01"

/-- The name of a mode as a key. -/
def keyed : String := "socket_path = \"x\"\nmode = \x7b shared = \x7b\x7d \x7d"

/-- Limits that are no table and a mode that is no string are accepted. -/
theorem other_shapes_accepted :
    ((Table.ofText listed).bind (·.find? "timeouts") = some (.array ⟨29, 40⟩
        [.integer ⟨30, 31⟩ 1, .integer ⟨33, 34⟩ 2, .string ⟨36, 39⟩ "a"]) ∧
      ofText listed = .ok ⟨"x", .perRequest, ⟨1, 2⟩⟩) ∧
    ((Table.ofText dated).bind (·.find? "timeouts") = some (.datetime ⟨29, 39⟩) ∧
      ofText dated = .ok ⟨"x", .perRequest, ⟨0, 0⟩⟩) ∧
    ((Table.ofText keyed).bind (·.find? "mode") = some (.table ⟨some ⟨25, 40⟩, .inline,
        [("shared", ⟨27, 33⟩, .table ⟨some ⟨36, 38⟩, .inline, []⟩)]⟩) ∧
      ofText keyed = .ok ⟨"x", .shared, ⟨0, 0⟩⟩) := by
  refine ⟨⟨?_, ?_⟩, ⟨?_, ?_⟩, ?_, ?_⟩ <;> cbv

end EnvelopeClient.Config
