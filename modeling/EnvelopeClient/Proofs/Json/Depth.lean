import EnvelopeClient.Proofs.Json.Front
import EnvelopeClient.Proofs.Json.RoundTrip

/-!
# How deep documents nest

The reader allows `depthLimit` containers around each other. Both halves of this are here. Nothing
it reads is deeper: what it has taken in so far fits below the limit at every byte
(`State.Fits`, `fits_step`), and so does the document (`depth_le_of_front`). And the text of a value
that is deeper is refused for its depth and for nothing else, wherever in a document it stands
(`overflows_value`), as everything before the container that is one too many is a passage.
-/

namespace EnvelopeClient.Json

open Utf8

/-! ### Depths of items and members -/

namespace Value

theorem itemsDepth_le {n : Nat} {items : List Value} :
    itemsDepth items ≤ n ↔ ∀ v ∈ items, v.depth ≤ n := by
  induction items with
  | nil => simp [itemsDepth]
  | cons v rest ih => rw [itemsDepth, Nat.max_le, ih, List.forall_mem_cons]

theorem membersDepth_le {n : Nat} {members : Members} :
    membersDepth members ≤ n ↔ ∀ m ∈ members, m.2.depth ≤ n := by
  induction members with
  | nil => simp [membersDepth]
  | cons m rest ih => rw [membersDepth, Nat.max_le, ih, List.forall_mem_cons]

theorem itemsDepth_reverse (items : List Value) : itemsDepth items.reverse = itemsDepth items := by
  apply Nat.le_antisymm
  · refine itemsDepth_le.mpr fun v hv => itemsDepth_le.mp (Nat.le_refl _) v ?_
    exact List.mem_reverse.mp hv
  · refine itemsDepth_le.mpr fun v hv => itemsDepth_le.mp (Nat.le_refl _) v ?_
    exact List.mem_reverse.mpr hv

end Value

theorem Members.mem_insert {key : String} {v : Value} {members : Members} {m : String × Value}
    (h : m ∈ members.insert key v) : m = (key, v) ∨ m ∈ members := by
  induction members with
  | nil => exact .inl (List.mem_singleton.mp h)
  | cons head rest ih =>
    rw [Members.insert] at h
    split at h
    · exact List.mem_cons.mp h
    · split at h
      · exact (List.mem_cons.mp h).imp_right (List.mem_cons_of_mem _)
      · rcases List.mem_cons.mp h with rfl | h
        · exact .inr List.mem_cons_self
        · exact (ih h).imp_right (List.mem_cons_of_mem _)

theorem Members.membersDepth_insert {key : String} {v : Value} {members : Members} {n : Nat}
    (hv : v.depth ≤ n) (hmembers : Value.membersDepth members ≤ n) :
    Value.membersDepth (members.insert key v) ≤ n := by
  refine Value.membersDepth_le.mpr fun m hm => ?_
  rcases Members.mem_insert hm with rfl | hm
  · exact hv
  · exact Value.membersDepth_le.mp hmembers m hm

/-- A member is not as deep as its object. -/
theorem Members.depth_of_get? {key : String} {v : Value} {members : Members}
    (h : members.get? key = some v) : v.depth < (Value.object members).depth := by
  obtain ⟨m, hm, rfl⟩ := Option.map_eq_some_iff.mp h
  rw [Value.depth]
  exact Nat.lt_succ_of_le (Value.membersDepth_le.mp (Nat.le_refl _) m (List.mem_of_find?_eq_some hm))

/-! ### Nothing deeper is read -/

/-- How deep the values go that were read so far in an open container. -/
def Enclosing.depth : Enclosing → Nat
  | .list items => Value.itemsDepth items
  | .object members _ => Value.membersDepth members

/-- How deep the value goes that is being read, as far as it has been. -/
def Mode.depth : Mode → Nat
  | .firstItem | .firstKey => 1
  | .nextItem items | .afterItem items => Value.itemsDepth items + 1
  | .nextKey members | .afterKey members _ | .afterMember members | .string (.key members) _ =>
    Value.membersDepth members + 1
  | .word v _ => v.depth
  | .value | .number _ | .string .value _ => 0

/-- Every open container fits into the depth the reader allows, in its place. -/
def Fit : List Enclosing → Prop
  | [] => True
  | e :: outer => outer.length + (e.depth + 1) ≤ depthLimit ∧ Fit outer

/-- What was read so far fits into the depth the reader allows. -/
structure State.Fits (s : State) : Prop where
  enclosing : Fit s.enclosing
  mode : s.enclosing.length + s.mode.depth ≤ depthLimit

/-- A step that leads to a state or a value that fits. -/
def Step.Fits : Step → Prop
  | .more s => s.Fits
  | .done v _ => v.depth ≤ depthLimit
  | .broken _ _ => True

namespace State

variable {enclosing : List Enclosing} {v : Value}

theorem fits_initial : State.initial.Fits := ⟨trivial, Nat.zero_le _⟩

/-- A value that fits where it stands leaves the container around it fitting. -/
theorem fits_behind {e : Enclosing} {outer : List Enclosing} (h : Fit (e :: outer))
    (hv : outer.length + 1 + v.depth ≤ depthLimit) : (behind e outer v).Fits := by
  obtain ⟨he, houter⟩ := h
  cases e with
  | list items =>
    rw [Enclosing.depth] at he
    refine ⟨houter, ?_⟩
    show outer.length + (max v.depth (Value.itemsDepth items) + 1) ≤ depthLimit
    omega
  | object members key =>
    rw [Enclosing.depth] at he
    refine ⟨houter, ?_⟩
    have hdepth : Value.membersDepth (Members.insert key v members) ≤
        max v.depth (Value.membersDepth members) :=
      Members.membersDepth_insert (Nat.le_max_left _ _) (Nat.le_max_right _ _)
    show outer.length + (Value.membersDepth (Members.insert key v members) + 1) ≤ depthLimit
    omega

theorem fits_deliverTaken (h : Fit enclosing) (hv : enclosing.length + v.depth ≤ depthLimit) :
    (deliverTaken enclosing v).Fits := by
  cases enclosing with
  | nil => simpa [deliverTaken, deliver, Step.Fits] using hv
  | cons e outer =>
    rw [deliverTaken_cons]
    exact fits_behind h (by simpa using hv)

theorem fits_beginValue (h : Fit enclosing) (hroom : enclosing.length ≤ depthLimit) (b : UInt8) :
    (beginValue enclosing b).Fits := by
  unfold beginValue
  repeat' split
  all_goals first
    | trivial
    | exact ⟨h, hroom⟩
    | exact ⟨h, by simp only [Mode.depth]; omega⟩

theorem fits_afterItem {items : List Value} (h : Fits ⟨enclosing, .afterItem items⟩) (b : UInt8) :
    (afterItem enclosing items b).Fits := by
  unfold afterItem
  repeat' split
  · exact h
  · exact ⟨h.enclosing, h.mode⟩
  · refine fits_deliverTaken h.enclosing ?_
    rw [Value.depth, Value.itemsDepth_reverse]
    exact h.mode
  · trivial

theorem fits_afterMember {members : Members} (h : Fits ⟨enclosing, .afterMember members⟩)
    (b : UInt8) : (afterMember enclosing members b).Fits := by
  unfold afterMember
  repeat' split
  · exact h
  · exact ⟨h.enclosing, h.mode⟩
  · exact fits_deliverTaken h.enclosing h.mode
  · trivial

/-- No byte makes what was read too deep. -/
theorem fits_step {s : State} (h : s.Fits) (b : UInt8) : (s.step b).Fits := by
  obtain ⟨enclosing, mode⟩ := s
  obtain ⟨hstack, hmode⟩ := h
  have hroom : enclosing.length ≤ depthLimit := Nat.le_trans (Nat.le_add_right _ _) hmode
  cases mode with
  | value =>
    simp only [step]
    split
    · exact ⟨hstack, hmode⟩
    · exact fits_beginValue hstack hroom b
  | firstItem =>
    simp only [step]
    repeat' split
    · exact ⟨hstack, hmode⟩
    · exact fits_deliverTaken hstack hmode
    · have hfit : Fit (.list [] :: enclosing) := ⟨hmode, hstack⟩
      exact fits_beginValue hfit hmode b
  | nextItem items =>
    simp only [step]
    repeat' split
    · exact ⟨hstack, hmode⟩
    · trivial
    · have hfit : Fit (.list items :: enclosing) := ⟨hmode, hstack⟩
      refine fits_beginValue hfit ?_ b
      simp only [Mode.depth] at hmode
      simp only [List.length_cons]
      omega
  | afterItem items => exact fits_afterItem ⟨hstack, hmode⟩ b
  | firstKey =>
    simp only [step]
    repeat' split
    · exact ⟨hstack, hmode⟩
    · exact fits_deliverTaken hstack hmode
    · exact ⟨hstack, hmode⟩
    · trivial
  | nextKey members =>
    simp only [step]
    repeat' split
    · exact ⟨hstack, hmode⟩
    · trivial
    · exact ⟨hstack, hmode⟩
    · trivial
  | afterKey members key =>
    simp only [step]
    repeat' split
    · exact ⟨hstack, hmode⟩
    · refine ⟨⟨hmode, hstack⟩, ?_⟩
      simp only [Mode.depth] at hmode
      simp only [List.length_cons, Mode.depth]
      omega
    · trivial
  | afterMember members => exact fits_afterMember ⟨hstack, hmode⟩ b
  | word v left =>
    simp only [step]
    repeat' split
    · trivial
    · trivial
    · exact fits_deliverTaken hstack hmode
    · exact ⟨hstack, hmode⟩
  | number n =>
    simp only [step]
    cases n.step b with
    | more n => exact ⟨hstack, hmode⟩
    | broken fault => trivial
    | ended =>
      cases n.value? with
      | none => trivial
      | some value =>
        cases enclosing with
        | nil => exact Nat.zero_le _
        | cons e outer =>
          have hbehind : (behind e outer (.number value)).Fits := fits_behind hstack hroom
          cases e with
          | list items => exact fits_afterItem hbehind b
          | object members key => exact fits_afterMember hbehind b
  | string role text =>
    simp only [step]
    cases text.step b with
    | more text => cases role <;> exact ⟨hstack, hmode⟩
    | broken fault => trivial
    | closed content =>
      cases role with
      | value => exact fits_deliverTaken hstack hmode
      | key members => exact ⟨hstack, hmode⟩

end State

/-- The document a state that fits comes to is not too deep. -/
theorem depth_le_of_scan {s : State} {index : Nat} {bytes rest : List UInt8} {v : Value}
    (h : s.Fits) (hscan : scan s index bytes = .complete v rest) : v.depth ≤ depthLimit := by
  induction bytes generalizing s index with
  | nil =>
    -- only a number is complete where the text ends
    obtain ⟨enclosing, mode⟩ := s
    cases mode with
    | number n =>
      simp only [scan, State.finish] at hscan
      repeat' split at hscan
      all_goals cases hscan
      exact Nat.zero_le _
    | _ =>
      simp only [scan, State.finish] at hscan
      repeat' split at hscan
      all_goals cases hscan
  | cons b bytes ih =>
    have hstep := State.fits_step h b
    rw [scan] at hscan
    cases hb : s.step b with
    | more t =>
      rw [hb] at hscan hstep
      exact ih hstep hscan
    | done w taken =>
      rw [hb] at hscan hstep
      cases taken <;> cases hscan <;> exact hstep
    | broken fault taken =>
      rw [hb] at hscan
      cases taken <;> cases hscan

/-- No document at the front of a buffer is deeper than the reader allows. -/
theorem depth_le_of_front {bytes rest : List UInt8} {v : Value}
    (h : Reading.front bytes = .complete v rest) : v.depth ≤ depthLimit :=
  depth_le_of_scan State.fits_initial (scan_of_front h)

/-! ### What is deeper is refused for it -/

namespace State

/-- Reading a text comes to a container that is one too many. -/
def Overflows (s : State) (text : List UInt8) : Prop :=
  ∀ index rest, ∃ place, scan s index (text ++ rest) = .broken .recursionLimit place

namespace Overflows

variable {s t : State} {p q : List UInt8} {b : UInt8}

theorem append (h : Overflows s p) (q : List UInt8) : Overflows s (p ++ q) := by
  intro index rest
  rw [List.append_assoc]
  exact h index (q ++ rest)

/-- Behind a passage. -/
theorem of_passes (hpass : Passes s p t) (h : Overflows t q) : Overflows s (p ++ q) := by
  intro index rest
  rw [List.append_assoc, scan_of_passes hpass]
  exact h _ rest

theorem cons (hstep : s.step b = .more t) (h : Overflows t q) : Overflows s (b :: q) := by
  intro index rest
  rw [List.cons_append, scan, hstep]
  exact h _ rest

theorem of_broken (hstep : s.step b = .broken .recursionLimit true) (q : List UInt8) :
    Overflows s (b :: q) := by
  intro index rest
  exact ⟨index + 1, by rw [List.cons_append, scan, hstep]⟩

/-- A state that does the same at the first byte reads the same. -/
theorem of_step_eq {s' : State} (h : Overflows s (b :: q)) (heq : s'.step b = s.step b) :
    Overflows s' (b :: q) := by
  intro index rest
  obtain ⟨place, hplace⟩ := h index rest
  rw [List.cons_append, scan] at hplace ⊢
  exact ⟨place, by rw [heq]; exact hplace⟩

end Overflows

/-- A first item is read like any value of the array. -/
theorem overflows_firstItem {enclosing : List Enclosing} {text : List UInt8}
    (htext : IsValueText text) (h : Overflows ⟨.list [] :: enclosing, .value⟩ text) :
    Overflows ⟨enclosing, .firstItem⟩ text := by
  obtain ⟨b, rest, rfl, hblank, hne⟩ := htext
  exact h.of_step_eq (by simp [step, hblank, hne])

/-- So is an item behind a comma. -/
theorem overflows_nextItem {enclosing : List Enclosing} {items : List Value} {text : List UInt8}
    (htext : IsValueText text) (h : Overflows ⟨.list items :: enclosing, .value⟩ text) :
    Overflows ⟨enclosing, .nextItem items⟩ text := by
  obtain ⟨b, rest, rfl, hblank, hne⟩ := htext
  exact h.of_step_eq (by simp [step, hblank, hne])

/-- No container may open where the limit is reached. -/
theorem step_openBracket_full {enclosing : List Enclosing} (h : depthLimit ≤ enclosing.length) :
    step ⟨enclosing, .value⟩ 0x5b = .broken .recursionLimit true := by
  simp [step, beginValue, isBlank, h]

theorem step_openBrace_full {enclosing : List Enclosing} (h : depthLimit ≤ enclosing.length) :
    step ⟨enclosing, .value⟩ 0x7b = .broken .recursionLimit true := by
  simp [step, beginValue, isBlank, h]

mutual

/-- The text of a value that is too deep where it stands overflows. -/
theorem overflows_value (v : Value) (hcanonical : v.Canonical) (hfloat : v.isFloatFree = true)
    (e : Enclosing) (outer : List Enclosing) (hroom : outer.length + 1 ≤ depthLimit)
    (hdeep : depthLimit < outer.length + 1 + v.depth) :
    Overflows ⟨e :: outer, .value⟩ (bytes v.chars) := by
  -- by recursion on the value, as for the values that fit: the first part that is too deep overflows
  match v with
  | .null | .bool _ | .number _ | .string _ =>
    rw [Value.depth] at hdeep
    omega
  | .array items =>
    rw [Value.depth] at hdeep
    rw [bytes_array]
    rcases Nat.lt_or_ge (e :: outer).length depthLimit with hlt | hfull
    · refine .cons (step_openBracket hlt) (.append ?_ _)
      cases items with
      | nil =>
        simp only [List.length_cons, Value.itemsDepth] at hlt hdeep
        omega
      | cons w rest =>
        have hfirst : w.isFloatFree = true := by
          simp only [Value.isFloatFree, Value.areFloatFree, Bool.and_eq_true] at hfloat
          exact hfloat.1
        refine overflows_firstItem (isValueText_itemChars hfirst) ?_
        exact overflows_items (w :: rest) (by simp) hcanonical hfloat [] (e :: outer) hlt
          (by simp only [List.length_cons]; omega)
    · exact .of_broken (step_openBracket_full hfull) _
  | .object members =>
    rw [Value.depth] at hdeep
    rw [bytes_object]
    rcases Nat.lt_or_ge (e :: outer).length depthLimit with hlt | hfull
    · refine .cons (step_openBrace hlt) (.append ?_ _)
      cases members with
      | nil =>
        simp only [List.length_cons, Value.membersDepth] at hlt hdeep
        omega
      | cons m rest =>
        exact overflows_members (m :: rest) (by simp) hcanonical.1 hfloat [] (e :: outer) hlt
          (by simp only [List.length_cons]; omega) rfl
    · exact .of_broken (step_openBrace_full hfull) _

/-- The texts of an array's items overflow if one of them is too deep. -/
theorem overflows_items (items : List Value) (hne : items ≠ [])
    (hcanonical : Value.CanonicalItems items) (hfloat : Value.areFloatFree items = true)
    (found : List Value) (enclosing : List Enclosing) (hroom : enclosing.length < depthLimit)
    (hdeep : depthLimit < enclosing.length + 1 + Value.itemsDepth items) :
    Overflows ⟨.list found :: enclosing, .value⟩ (bytes (itemChars items)) := by
  match items with
  | [v] =>
    simp only [Value.itemsDepth, Nat.max_zero] at hdeep
    simp only [Value.areFloatFree, Bool.and_eq_true] at hfloat
    exact overflows_value v hcanonical.1 hfloat.1 (.list found) enclosing hroom hdeep
  | v :: w :: rest =>
    simp only [Value.areFloatFree, Bool.and_eq_true] at hfloat
    obtain ⟨hv, hw, hrest⟩ := hfloat
    rw [itemChars, bytes_append, bytes_comma]
    · rcases Nat.lt_or_ge depthLimit (enclosing.length + 1 + v.depth) with hfirst | hfits
      · exact (overflows_value v hcanonical.1 hv (.list found) enclosing hroom hfirst).append _
      · obtain ⟨t, hpass, hend⟩ := passes_value v hcanonical.1 hv (.list found) enclosing hfits
        have hcomma : t.step 0x2c = .more ⟨enclosing, .nextItem (v :: found)⟩ := by
          rw [hend 0x2c (by simp [IsSeparator])]
          simp [behind, step, afterItem, isBlank]
        refine .of_passes hpass (.cons hcomma (overflows_nextItem (isValueText_itemChars hw) ?_))
        refine overflows_items (w :: rest) (by simp) hcanonical.2
          (by simp [Value.areFloatFree, hw, hrest]) (v :: found) enclosing hroom ?_
        rw [Value.itemsDepth] at hdeep
        omega
    · simp

/-- The texts of an object's members overflow if the value of one of them is too deep. -/
theorem overflows_members (members : List (String × Value)) (hne : members ≠ [])
    (hcanonical : Value.CanonicalMembers members) (hfloat : Value.membersFloatFree members = true)
    {s : State} (found : Members) (enclosing : List Enclosing)
    (hroom : enclosing.length < depthLimit)
    (hdeep : depthLimit < enclosing.length + 1 + Value.membersDepth members)
    (hs : s.step 0x22 = .more ⟨enclosing, .string (.key found) .empty⟩) :
    Overflows s (bytes (memberChars members)) := by
  match members with
  | [(key, v)] =>
    simp only [Value.membersDepth, Nat.max_zero] at hdeep
    simp only [Value.membersFloatFree, Bool.and_eq_true] at hfloat
    have htext := Overflows.of_passes (passes_keyColon key hs)
      (overflows_value v hcanonical.1 hfloat.1 (.object found key) enclosing hroom hdeep)
    rw [memberChars, bytes_append, bytes_colon]
    simpa using htext
  | (key, v) :: m :: rest =>
    simp only [Value.membersFloatFree, Bool.and_eq_true] at hfloat
    obtain ⟨hv, hm, hrest⟩ := hfloat
    have htext : Overflows s ((bytes (stringText key) ++ [0x3a]) ++
        (bytes v.chars ++ 0x2c :: bytes (memberChars (m :: rest)))) := by
      refine .of_passes (passes_keyColon key hs) ?_
      rcases Nat.lt_or_ge depthLimit (enclosing.length + 1 + v.depth) with hfirst | hfits
      · exact (overflows_value v hcanonical.1 hv (.object found key) enclosing hroom hfirst).append _
      · obtain ⟨t, hpass, hend⟩ :=
          passes_value v hcanonical.1 hv (.object found key) enclosing hfits
        have hcomma : t.step 0x2c = .more ⟨enclosing, .nextKey (found.insert key v)⟩ := by
          rw [hend 0x2c (by simp [IsSeparator])]
          simp [behind, step, afterMember, isBlank]
        refine .of_passes hpass (.cons hcomma ?_)
        refine overflows_members (m :: rest) (by simp) hcanonical.2
          (by simp [Value.membersFloatFree, hm, hrest]) (found.insert key v) enclosing hroom ?_ rfl
        rw [Value.membersDepth] at hdeep
        omega
    rw [memberChars, bytes_append, bytes_colon, bytes_append, bytes_comma]
    · simpa using htext
    · simp

end

end State

end EnvelopeClient.Json
