import EnvelopeClient.Proofs.Json.Leaves

/-!
# Values are read as they are written

`passes_value` says that the compact text of a value, wherever in a document it stands, is a passage
to the place behind that value. It holds for the values that *travel*: canonical ones without
binary64 numbers, whose containers nest no deeper than the reader allows below those already open.
Binary64 numbers are left out because the reader rounds them.

An object at the front of a stream closes with its last brace (`passes_document`); its members have
then been put in order.
-/

namespace EnvelopeClient.Json

open Utf8

/-! ### The values that travel -/

namespace Value

mutual

/-- Whether a value has no binary64 number in it. -/
def isFloatFree : Value → Bool
  | .null | .bool _ | .string _ | .number (.int _) => true
  | .number (.float _) => false
  | .array items => areFloatFree items
  | .object members => membersFloatFree members

/-- `isFloatFree` for every item of an array. -/
def areFloatFree : List Value → Bool
  | [] => true
  | v :: rest => v.isFloatFree && areFloatFree rest

/-- `isFloatFree` for the value of every member. -/
def membersFloatFree : List (String × Value) → Bool
  | [] => true
  | (_, v) :: rest => v.isFloatFree && membersFloatFree rest

end

theorem areFloatFree_iff {items : List Value} :
    areFloatFree items = true ↔ ∀ v ∈ items, v.isFloatFree = true := by
  induction items with
  | nil => simp [areFloatFree]
  | cons v rest ih => rw [areFloatFree, Bool.and_eq_true, ih, List.forall_mem_cons]

theorem membersFloatFree_iff {members : List (String × Value)} :
    membersFloatFree members = true ↔ ∀ m ∈ members, m.2.isFloatFree = true := by
  induction members with
  | nil => simp [membersFloatFree]
  | cons m rest ih => rw [membersFloatFree, Bool.and_eq_true, ih, List.forall_mem_cons]

mutual

/-- How many containers are nested in a value, itself included. -/
def depth : Value → Nat
  | .null | .bool _ | .string _ | .number _ => 0
  | .array items => itemsDepth items + 1
  | .object members => membersDepth members + 1

/-- The greatest `depth` of an array's items. -/
def itemsDepth : List Value → Nat
  | [] => 0
  | v :: rest => max v.depth (itemsDepth rest)

/-- The greatest `depth` of the values of an object's members. -/
def membersDepth : List (String × Value) → Nat
  | [] => 0
  | (_, v) :: rest => max v.depth (membersDepth rest)

end

/-- A value that can be the data of a message: it is read back as it was written. One container
around it, the message, has to fit into the depth the reader allows. -/
structure Travels (v : Value) : Prop where
  canonical : v.Canonical
  floatFree : v.isFloatFree = true
  shallow : v.depth < depthLimit

end Value

/-! ### Members in their order -/

/-- A member whose key comes last is set at the end. -/
theorem Members.insert_of_forall_lt {key : String} (v : Value) {members : Members}
    (h : ∀ m ∈ members, m.1 < key) : members.insert key v = members ++ [(key, v)] := by
  induction members with
  | nil => rfl
  | cons m rest ih =>
    obtain ⟨k, w⟩ := m
    have hlt : k < key := h (k, w) (by simp)
    have hne : ¬ key = k := fun heq => String.lt_irrefl k (heq ▸ hlt)
    rw [Members.insert, if_neg (String.lt_asymm hlt), if_neg hne,
      ih fun m hm => h m (by simp [hm]), List.cons_append]

/-- Takes in members one after the other. -/
def Members.insertAll (members more : Members) : Members :=
  more.foldl (fun members (key, value) => members.insert key value) members

@[simp] theorem Members.insertAll_cons (members : Members) (key : String) (v : Value)
    (more : Members) :
    members.insertAll ((key, v) :: more) = (members.insert key v).insertAll more := rfl

/-- Members in ascending order stay as they are. -/
theorem Members.insertAll_of_pairwise {members more : Members}
    (h : ((members ++ more).map (·.1)).Pairwise (· < ·)) :
    members.insertAll more = members ++ more := by
  induction more generalizing members with
  | nil => exact (List.append_nil members).symm
  | cons m more ih =>
    obtain ⟨key, v⟩ := m
    have hlt : ∀ m ∈ members, m.1 < key := by
      intro m hm
      rw [List.map_append, List.pairwise_append] at h
      exact h.2.2 m.1 (List.mem_map_of_mem hm) key (by simp)
    rw [Members.insertAll_cons, Members.insert_of_forall_lt v hlt, ih (by simpa using h)]
    simp

/-! ### Values -/

/-- A byte that can be the first of a value's text. -/
def BeginsValue (b : UInt8) : Prop := isBlank b = false ∧ b ≠ 0x5d

/-- A text whose first byte can be the first of a value's. -/
def IsValueText (text : List UInt8) : Prop := ∃ b rest, text = b :: rest ∧ BeginsValue b

theorem IsValueText.append {p : List UInt8} (h : IsValueText p) (q : List UInt8) :
    IsValueText (p ++ q) := by
  obtain ⟨b, rest, rfl, hb⟩ := h
  exact ⟨b, rest ++ q, rfl, hb⟩

theorem beginsValue_digitByte : ∀ d : Fin 10, BeginsValue (digitByte d) := by
  simp only [BeginsValue]
  decide

theorem isValueText_toDigits (k : Nat) : IsValueText (bytes (Nat.toDigits 10 k)) := by
  obtain ⟨d, rest, htext⟩ := exists_cons_toDigits k
  exact ⟨digitByte d, rest, htext, beginsValue_digitByte d⟩

theorem isValueText_chars {v : Value} (h : v.isFloatFree = true) :
    IsValueText (bytes v.chars) := by
  match v with
  | .null => exact ⟨0x6e, _, rfl, by decide, by decide⟩
  | .bool true => exact ⟨0x74, _, rfl, by decide, by decide⟩
  | .bool false => exact ⟨0x66, _, rfl, by decide, by decide⟩
  | .number (.int (.ofNat k)) => exact isValueText_toDigits k
  | .number (.int (.negSucc k)) => exact ⟨0x2d, _, rfl, by decide, by decide⟩
  | .number (.float x) => simp [Value.isFloatFree] at h
  | .string s => exact ⟨0x22, _, rfl, by decide, by decide⟩
  | .array items => exact ⟨0x5b, _, rfl, by decide, by decide⟩
  | .object members => exact ⟨0x7b, _, rfl, by decide, by decide⟩

theorem isValueText_itemChars {v : Value} {rest : List Value} (h : v.isFloatFree = true) :
    IsValueText (bytes (itemChars (v :: rest))) := by
  cases rest with
  | nil => simpa only [itemChars] using isValueText_chars h
  | cons w rest =>
    rw [itemChars, bytes_append]
    · exact (isValueText_chars h).append _
    · simp

namespace State

/-- A first item is read like any value of the array. -/
theorem passes_firstItem {enclosing : List Enclosing} {text : List UInt8} {t : State}
    (htext : IsValueText text) (h : Passes ⟨.list [] :: enclosing, .value⟩ text t) :
    Passes ⟨enclosing, .firstItem⟩ text t := by
  obtain ⟨b, rest, rfl, hblank, hne⟩ := htext
  refine h.of_step_eq ?_
  simp [step, hblank, hne]

/-- So is an item behind a comma. -/
theorem passes_nextItem {enclosing : List Enclosing} {items : List Value} {text : List UInt8}
    {t : State} (htext : IsValueText text)
    (h : Passes ⟨.list items :: enclosing, .value⟩ text t) :
    Passes ⟨enclosing, .nextItem items⟩ text t := by
  obtain ⟨b, rest, rfl, hblank, hne⟩ := htext
  refine h.of_step_eq ?_
  simp [step, hblank, hne]

/-- The words `null`, `true` and `false`. -/
theorem passes_word {s : State} {e : Enclosing} {outer : List Enclosing} {b : UInt8} {v : Value}
    (word : List UInt8) (hne : word ≠ [])
    (hs : s.step b = .more ⟨e :: outer, .word v word⟩) :
    Passes s (b :: word) (behind e outer v) := by
  refine .cons hs (unfinished_word _ _ _) ?_
  -- what is left of the word is all that the state behind its first byte knows
  clear hs
  induction word with
  | nil => exact absurd rfl hne
  | cons c word ih =>
    by_cases hnil : word = []
    · subst hnil
      refine .single ?_ (unfinished_behind e outer v)
      simp [step, deliverTaken_cons]
    · refine .cons ?_ (unfinished_word _ _ _) (ih hnil)
      simp [step, hnil]

/-- A key and a colon lead to the value of the member. -/
theorem passes_keyColon {s : State} {enclosing : List Enclosing} {members : Members} (key : String)
    (h : s.step 0x22 = .more ⟨enclosing, .string (.key members) .empty⟩) :
    Passes s (bytes (stringText key) ++ [0x3a]) ⟨.object members key :: enclosing, .value⟩ :=
  (passes_key key h).append (.single rfl (unfinished_value _ _))

theorem bytes_colon (cs : List Char) : bytes (':' :: cs) = 0x3a :: bytes cs := rfl

theorem bytes_comma (cs : List Char) : bytes (',' :: cs) = 0x2c :: bytes cs := rfl

theorem bytes_array (items : List Value) :
    bytes (Value.array items).chars = 0x5b :: (bytes (itemChars items) ++ [0x5d]) := by
  rw [Value.chars, bytes_cons, bytes_append]
  rfl

theorem bytes_object (members : List (String × Value)) :
    bytes (Value.object members).chars = 0x7b :: (bytes (memberChars members) ++ [0x7d]) := by
  rw [Value.chars, bytes_cons, bytes_append]
  rfl

/-- A container may open where a value that travels has one. -/
theorem step_openBracket {enclosing : List Enclosing} (h : enclosing.length < depthLimit) :
    step ⟨enclosing, .value⟩ 0x5b = .more ⟨enclosing, .firstItem⟩ := by
  simp [step, beginValue, isBlank, Nat.not_le_of_lt h]

theorem step_openBrace {enclosing : List Enclosing} (h : enclosing.length < depthLimit) :
    step ⟨enclosing, .value⟩ 0x7b = .more ⟨enclosing, .firstKey⟩ := by
  simp [step, beginValue, isBlank, Nat.not_le_of_lt h]

mutual

/-- The text of a value inside a container is a passage to the place behind that value. -/
theorem passes_value (v : Value) (hcanonical : v.Canonical) (hfloat : v.isFloatFree = true)
    (e : Enclosing) (outer : List Enclosing) (hdepth : outer.length + 1 + v.depth ≤ depthLimit) :
    ∃ t, Passes ⟨e :: outer, .value⟩ (bytes v.chars) t ∧ t.EndsAs (behind e outer v) := by
  -- by recursion on the value: its parts stand one container deeper, which the depth pays for
  have hroom : 0 < v.depth → (e :: outer).length < depthLimit := by
    intro hpos
    rw [List.length_cons]
    omega
  match v with
  | .null => exact ⟨_, passes_word [0x75, 0x6c, 0x6c] (by simp) rfl, .refl _⟩
  | .bool true => exact ⟨_, passes_word [0x72, 0x75, 0x65] (by simp) rfl, .refl _⟩
  | .bool false => exact ⟨_, passes_word [0x61, 0x6c, 0x73, 0x65] (by simp) rfl, .refl _⟩
  | .number (.int n) => exact passes_int hcanonical e outer
  | .number (.float x) => simp [Value.isFloatFree] at hfloat
  | .string str => exact ⟨_, passes_string str e outer, .refl _⟩
  | .array [] =>
    refine ⟨behind e outer (.array []), ?_, .refl _⟩
    rw [bytes_array]
    refine .cons (step_openBracket (hroom (Nat.succ_pos _))) ⟨.list, fun _ => rfl⟩ ?_
    exact .single (deliverTaken_cons e outer (.array [])) (unfinished_behind e outer _)
  | .array (w :: rest) =>
    rw [Value.depth] at hdepth
    have hfirst : w.isFloatFree = true := by
      simp only [Value.isFloatFree, Value.areFloatFree, Bool.and_eq_true] at hfloat
      exact hfloat.1
    obtain ⟨t, hpass, hend⟩ := passes_items (w :: rest) (by simp) hcanonical hfloat [] (e :: outer)
      (by simp only [List.length_cons]; omega)
    refine ⟨behind e outer (.array (w :: rest)), ?_, .refl _⟩
    rw [bytes_array]
    refine .cons (step_openBracket (hroom (Nat.succ_pos _))) ⟨.list, fun _ => rfl⟩ ?_
    refine (passes_firstItem (isValueText_itemChars hfirst) hpass).append ?_
    refine .single ?_ (unfinished_behind e outer _)
    rw [hend 0x5d (by simp [IsSeparator]), ← deliverTaken_cons]
    simp [step, afterItem, isBlank]
  | .object [] =>
    refine ⟨behind e outer (.object []), ?_, .refl _⟩
    rw [bytes_object]
    refine .cons (step_openBrace (hroom (Nat.succ_pos _))) ⟨.object, fun _ => rfl⟩ ?_
    exact .single (deliverTaken_cons e outer (.object [])) (unfinished_behind e outer _)
  | .object (m :: rest) =>
    rw [Value.depth] at hdepth
    obtain ⟨hmembers, hsorted⟩ := hcanonical
    obtain ⟨t, hpass, hend⟩ := passes_members (m :: rest) (by simp) hmembers hfloat
      (s := ⟨e :: outer, .firstKey⟩) [] (e :: outer) (by simp only [List.length_cons]; omega) rfl
    rw [Members.insertAll_of_pairwise (by simpa using hsorted), List.nil_append] at hend
    refine ⟨behind e outer (.object (m :: rest)), ?_, .refl _⟩
    rw [bytes_object]
    refine .cons (step_openBrace (hroom (Nat.succ_pos _))) ⟨.object, fun _ => rfl⟩ (hpass.append ?_)
    refine .single ?_ (unfinished_behind e outer _)
    rw [hend 0x7d (by simp [IsSeparator]), ← deliverTaken_cons]
    simp [step, afterMember, isBlank]

/-- The texts of an array's items, with commas between them. -/
theorem passes_items (items : List Value) (hne : items ≠ [])
    (hcanonical : Value.CanonicalItems items) (hfloat : Value.areFloatFree items = true)
    (found : List Value) (enclosing : List Enclosing)
    (hdepth : enclosing.length + 1 + Value.itemsDepth items ≤ depthLimit) :
    ∃ t, Passes ⟨.list found :: enclosing, .value⟩ (bytes (itemChars items)) t ∧
      t.EndsAs ⟨enclosing, .afterItem (items.reverse ++ found)⟩ := by
  match items with
  | [v] =>
    simp only [Value.itemsDepth] at hdepth
    simp only [Value.areFloatFree, Bool.and_eq_true] at hfloat
    exact passes_value v hcanonical.1 hfloat.1 (.list found) enclosing (by omega)
  | v :: w :: rest =>
    simp only [Value.itemsDepth] at hdepth
    simp only [Value.areFloatFree, Bool.and_eq_true] at hfloat
    obtain ⟨hv, hw, hrest⟩ := hfloat
    obtain ⟨t, hpass, hend⟩ := passes_value v hcanonical.1 hv (.list found) enclosing (by omega)
    obtain ⟨u, hpass', hend'⟩ := passes_items (w :: rest) (by simp) hcanonical.2
      (by simp [Value.areFloatFree, hw, hrest]) (v :: found) enclosing
      (by simp only [Value.itemsDepth]; omega)
    -- a number ends only at the comma, so the step at the comma is what can be told
    have hcomma : t.step 0x2c = .more ⟨enclosing, .nextItem (v :: found)⟩ := by
      rw [hend 0x2c (by simp [IsSeparator])]
      simp [behind, step, afterItem, isBlank]
    refine ⟨u, ?_, ?_⟩
    · rw [itemChars, bytes_append, bytes_comma]
      · refine hpass.append (.cons hcomma ⟨.value, fun _ => rfl⟩ ?_)
        exact passes_nextItem (isValueText_itemChars hw) hpass'
      · simp
    · simpa using hend'

/-- The texts of an object's members, with commas between them. Each is set as it is read. -/
theorem passes_members (members : List (String × Value)) (hne : members ≠ [])
    (hcanonical : Value.CanonicalMembers members) (hfloat : Value.membersFloatFree members = true)
    {s : State} (found : Members) (enclosing : List Enclosing)
    (hdepth : enclosing.length + 1 + Value.membersDepth members ≤ depthLimit)
    (hs : s.step 0x22 = .more ⟨enclosing, .string (.key found) .empty⟩) :
    ∃ t, Passes s (bytes (memberChars members)) t ∧
      t.EndsAs ⟨enclosing, .afterMember (found.insertAll members)⟩ := by
  match members with
  | [(key, v)] =>
    simp only [Value.membersDepth] at hdepth
    simp only [Value.membersFloatFree, Bool.and_eq_true] at hfloat
    obtain ⟨t, hpass, hend⟩ :=
      passes_value v hcanonical.1 hfloat.1 (.object found key) enclosing (by omega)
    refine ⟨t, ?_, hend⟩
    have htext := (passes_keyColon key hs).append hpass
    rw [memberChars, bytes_append, bytes_colon]
    simpa using htext
  | (key, v) :: m :: rest =>
    simp only [Value.membersDepth] at hdepth
    simp only [Value.membersFloatFree, Bool.and_eq_true] at hfloat
    obtain ⟨hv, hm, hrest⟩ := hfloat
    obtain ⟨t, hpass, hend⟩ :=
      passes_value v hcanonical.1 hv (.object found key) enclosing (by omega)
    have hcomma : t.step 0x2c = .more ⟨enclosing, .nextKey (found.insert key v)⟩ := by
      rw [hend 0x2c (by simp [IsSeparator])]
      simp [behind, step, afterMember, isBlank]
    obtain ⟨u, hpass', hend'⟩ := passes_members (m :: rest) (by simp) hcanonical.2
      (by simp [Value.membersFloatFree, hm, hrest]) (s := ⟨enclosing, .nextKey (found.insert key v)⟩)
      (found.insert key v) enclosing (by simp only [Value.membersDepth]; omega) rfl
    refine ⟨u, ?_, by simpa using hend'⟩
    have htext := ((passes_keyColon key hs).append hpass).append
      (.cons hcomma ⟨.value, fun _ => rfl⟩ hpass')
    rw [memberChars, bytes_append, bytes_colon, bytes_append, bytes_comma]
    · simpa using htext
    · simp

end

end State

/-! ### A whole document -/

/-- The text of an object, but for its last brace, is a passage; the brace closes the document, and
the members are those of the text in their order. -/
theorem passes_document {members : List (String × Value)} (hne : members ≠ [])
    (hcanonical : Value.CanonicalMembers members) (hfloat : Value.membersFloatFree members = true)
    (hdepth : Value.membersDepth members < depthLimit) :
    ∃ t, State.Passes .initial (0x7b :: bytes (memberChars members)) t ∧
      t.step 0x7d = .done (.object (Members.ofList members)) true := by
  obtain ⟨t, hpass, hend⟩ := State.passes_members members hne hcanonical hfloat
    (s := ⟨[], .firstKey⟩) [] [] (by simp only [List.length_nil]; omega) rfl
  refine ⟨t, .cons rfl ⟨.object, fun _ => rfl⟩ hpass, ?_⟩
  rw [hend 0x7d (by simp [State.IsSeparator])]
  rfl

end EnvelopeClient.Json
