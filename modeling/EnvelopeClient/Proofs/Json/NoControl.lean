import EnvelopeClient.Json.Printer
import EnvelopeClient.Proofs.Text.Bytes

/-!
# Texts without control characters

No text that is written has a control character in it, whatever the value (`Json.noControl_chars`).
In strings and in keys control characters are escaped, and no escape has one itself; the rest of a
text is digits, letters and marks. This includes binary64 numbers. What holds of the characters of a
text holds of its bytes (`NoControl.le_of_mem_bytes`).
-/

namespace EnvelopeClient

/-- Characters none of which is a control character. -/
def NoControl (cs : List Char) : Prop := ∀ c ∈ cs, 0x20 ≤ c.toNat

section NoControl

variable {c : Char} {cs ds : List Char}

@[simp] theorem noControl_nil : NoControl [] := by simp [NoControl]

@[simp] theorem noControl_cons : NoControl (c :: cs) ↔ 0x20 ≤ c.toNat ∧ NoControl cs :=
  List.forall_mem_cons

@[simp] theorem noControl_append : NoControl (cs ++ ds) ↔ NoControl cs ∧ NoControl ds :=
  List.forall_mem_append

theorem NoControl.subset (h : NoControl ds) (hsub : cs ⊆ ds) : NoControl cs :=
  fun c hc => h c (hsub hc)

theorem noControl_flatMap {text : Char → List Char} (h : ∀ c ∈ cs, NoControl (text c)) :
    NoControl (cs.flatMap text) := by
  intro d hd
  obtain ⟨c, hc, hmem⟩ := List.mem_flatMap.mp hd
  exact h c hc d hmem

theorem noControl_toDigits (k : Nat) : NoControl (Nat.toDigits 10 k) := by
  intro c hc
  have hdigit := Nat.isDigit_of_mem_toDigits (by decide) (by decide) hc
  simp only [Char.isDigit, Bool.and_eq_true, decide_eq_true_eq] at hdigit
  exact Nat.le_trans (by decide) (UInt32.le_iff_toNat_le.mp hdigit.1)

/-- The bytes of such characters are no control characters either. -/
theorem NoControl.le_of_mem_bytes (h : NoControl cs) {b : UInt8} (hb : b ∈ Utf8.bytes cs) :
    0x20 ≤ b := by
  obtain ⟨c, hc, hmem⟩ := List.mem_flatMap.mp hb
  have hle := h c hc
  rw [UInt8.le_iff_toNat_le]
  by_cases hascii : c.toNat < 0x80
  · rw [Utf8.utf8EncodeChar_of_lt hascii, List.mem_singleton] at hmem
    subst hmem
    simp only [UInt8.toNat_ofNat', UInt8.reduceToNat]
    omega
  · have hbeyond := UInt8.le_iff_toNat_le.mp
      (Utf8.le_of_mem_utf8EncodeChar (Nat.le_of_not_lt hascii) hmem)
    exact Nat.le_trans (by decide) hbeyond

end NoControl

/-! ### Binary64 numbers -/

namespace Decimal

theorem noControl_ofGrid (count : Nat) (unit : Int) :
    NoControl (Digits.ofGrid count unit).digits := by
  refine (noControl_toDigits count).subset fun c hc => ?_
  have hc := (List.dropWhile_sublist _).subset (List.mem_reverse.mp hc)
  exact List.mem_reverse.mp hc

theorem noControl_search (r : Rounding) (tie : Tie) (leading : Int) (n fuel : Nat) :
    NoControl (r.search tie leading n fuel).digits := by
  induction fuel generalizing n with
  | zero => exact noControl_ofGrid _ _
  | succ fuel ih =>
    rw [Rounding.search]
    split
    · exact noControl_ofGrid _ _
    · exact ih (n + 1)

theorem noControl_positionalText {d : Digits} (h : NoControl d.digits) :
    NoControl (positionalText d) := by
  have hzeros (n : Nat) : NoControl (List.replicate n '0') := by
    intro c hc
    rw [List.eq_of_mem_replicate hc]
    decide
  have htake (n : Nat) : NoControl (d.digits.take n) := h.subset (List.take_subset n _)
  have hdrop (n : Nat) : NoControl (d.digits.drop n) := h.subset (List.drop_subset n _)
  simp only [positionalText]
  split
  · simp [h, hzeros]
  · split <;> simp [htake, hdrop, hzeros]

theorem noControl_scientificText {d : Digits} (h : NoControl d.digits) :
    NoControl (scientificText d) := by
  have hsign : 0x20 ≤ (if d.exponent < 0 then '-' else '+').toNat := by split <;> decide
  simp only [scientificText]
  split
  · next first second rest hdigits =>
    rw [hdigits, noControl_cons, noControl_cons] at h
    obtain ⟨hfirst, hsecond, hrest⟩ := h
    simp [hfirst, hsecond, hrest, hsign, noControl_toDigits]
  · simp [h, hsign, noControl_toDigits]

theorem Layout.noControl_magnitude (layout : Layout) (x : Float) :
    NoControl (layout.magnitude x) := by
  simp only [magnitude]
  split
  · simp
  · split
    · exact noControl_positionalText (noControl_search _ _ _ _ _)
    · exact noControl_scientificText (noControl_search _ _ _ _ _)

theorem Layout.noControl_write (layout : Layout) (x : Float) :
    NoControl (layout.write x).toList := by
  rw [write, String.toList_ofList]
  split <;> simp [layout.noControl_magnitude x]

end Decimal

/-! ### Values -/

namespace Json

theorem noControl_intText (n : Int) : NoControl (intText n) := by
  cases n with
  | ofNat k => exact noControl_toDigits k
  | negSucc k => simp [intText, noControl_toDigits]

theorem noControl_unitEscape {c : Char} (h : c.toNat < 0x20) : NoControl (unitEscape c) := by
  have hdigit : ∀ k : Fin 16, 0x20 ≤ (Nat.digitChar k).toNat := by decide
  have hhigh := hdigit ⟨c.toNat / 16, by omega⟩
  have hlow := hdigit ⟨c.toNat % 16, by omega⟩
  simp [unitEscape, hhigh, hlow]

theorem noControl_escapeChar (c : Char) : NoControl (escapeChar c) := by
  rw [escapeChar]
  -- the named escapes first; of what is left, control characters are written as units
  iterate 7 refine iteInduction (fun _ => by simp) fun _ => ?_
  refine iteInduction noControl_unitEscape fun hcontrol => ?_
  simpa using hcontrol

theorem noControl_stringText (s : String) : NoControl (stringText s) := by
  have hinner : NoControl (s.toList.flatMap escapeChar) :=
    noControl_flatMap fun c _ => noControl_escapeChar c
  simp [stringText, hinner]

mutual

/-- The text of a value has no control characters. -/
theorem noControl_chars (v : Value) : NoControl v.chars := by
  match v with
  | .null => simp [Value.chars]
  | .bool true => simp [Value.chars]
  | .bool false => simp [Value.chars]
  | .number (.int n) => exact noControl_intText n
  | .number (.float x) => exact floatLayout.noControl_write x
  | .string s => exact noControl_stringText s
  | .array items => simp [Value.chars, noControl_itemChars items]
  | .object members => simp [Value.chars, noControl_memberChars members]

theorem noControl_itemChars (items : List Value) : NoControl (itemChars items) := by
  match items with
  | [] => exact noControl_nil
  | [v] => exact noControl_chars v
  | v :: w :: rest => simp [itemChars, noControl_chars v, noControl_itemChars (w :: rest)]

theorem noControl_memberChars (members : List (String × Value)) :
    NoControl (memberChars members) := by
  match members with
  | [] => exact noControl_nil
  | [(k, v)] => simp [memberChars, noControl_stringText k, noControl_chars v]
  | (k, v) :: m :: rest =>
    simp [memberChars, noControl_stringText k, noControl_chars v, noControl_memberChars (m :: rest)]

end

end Json

end EnvelopeClient
