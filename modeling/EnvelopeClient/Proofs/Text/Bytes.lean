import EnvelopeClient.Text.Utf8

/-!
# The bytes of characters

The bytes of a text are those of its characters, one character after the other. A character of one
byte is that byte, and no byte of a longer one is an ASCII byte, so what a reader looks for among
ASCII bytes it never finds inside another character (`plain_of_mem_utf8EncodeChar`).
-/

namespace EnvelopeClient.Utf8

/-- The bytes of some characters. -/
def bytes (cs : List Char) : List UInt8 := cs.flatMap String.utf8EncodeChar

@[simp] theorem bytes_nil : bytes [] = [] := rfl

theorem bytes_cons (c : Char) (cs : List Char) :
    bytes (c :: cs) = String.utf8EncodeChar c ++ bytes cs := rfl

@[simp] theorem bytes_append (cs ds : List Char) : bytes (cs ++ ds) = bytes cs ++ bytes ds := by
  simp [bytes]

/-- The bytes of a text are the bytes of its characters. -/
theorem encode_eq_bytes (s : String) : encode s = bytes s.toList := by
  rw [encode, ← String.utf8Encode_toList, List.utf8Encode, bytes]
  simp

theorem bytes_inj {cs ds : List Char} (h : bytes cs = bytes ds) : cs = ds := by
  have hencode (cs : List Char) : encode (String.ofList cs) = bytes cs := by
    rw [encode_eq_bytes, String.toList_ofList]
  have hdecode := decode?_encode (String.ofList cs)
  rw [hencode, h, ← hencode, decode?_encode, Option.some.injEq] at hdecode
  exact (String.ofList_injective hdecode).symm

theorem utf8EncodeChar_of_lt {c : Char} (h : c.toNat < 0x80) :
    String.utf8EncodeChar c = [UInt8.ofNat c.toNat] := by
  have hle : c.val.toNat ≤ 0x7f := Nat.le_of_lt_succ h
  unfold String.utf8EncodeChar
  simp only [if_pos hle]
  rfl

/-- No byte of a character beyond ASCII is an ASCII byte. -/
theorem le_of_mem_utf8EncodeChar {c : Char} {b : UInt8} (h : 0x80 ≤ c.toNat)
    (hb : b ∈ String.utf8EncodeChar c) : 0x80 ≤ b := by
  have hgt : ¬ c.val.toNat ≤ 0x7f := Nat.not_le.mpr h
  rw [UInt8.le_iff_toNat_le]
  unfold String.utf8EncodeChar at hb
  simp only [if_neg hgt] at hb
  -- two, three or four bytes, each with its high bit set
  split at hb
  · simp only [List.mem_cons, List.not_mem_nil, or_false] at hb
    rcases hb with rfl | rfl <;> simp <;> omega
  · split at hb
    · simp only [List.mem_cons, List.not_mem_nil, or_false] at hb
      rcases hb with rfl | rfl | rfl <;> simp <;> omega
    · simp only [List.mem_cons, List.not_mem_nil, or_false] at hb
      rcases hb with rfl | rfl | rfl | rfl <;> simp <;> omega

/-- A byte that neither ends a string, nor opens an escape, nor is a control character. -/
def IsPlain (b : UInt8) : Prop := b ≠ 0x22 ∧ b ≠ 0x5c ∧ ¬ b < 0x20

/-- A character that need not be escaped has plain bytes only. -/
theorem plain_of_mem_utf8EncodeChar {c : Char} {b : UInt8} (hquote : c ≠ '"')
    (hbackslash : c ≠ '\\') (hcontrol : ¬ c.toNat < 0x20) (hb : b ∈ String.utf8EncodeChar c) :
    IsPlain b := by
  by_cases h : c.toNat < 0x80
  · rw [utf8EncodeChar_of_lt h, List.mem_singleton] at hb
    subst hb
    -- different ASCII characters are different bytes
    have hne : ∀ d : Char, d.toNat < 0x80 → c ≠ d →
        UInt8.ofNat c.toNat ≠ UInt8.ofNat d.toNat := by
      intro d hd hcd heq
      have := congrArg UInt8.toNat heq
      simp only [UInt8.toNat_ofNat'] at this
      exact hcd (Char.toNat_inj.mp (by omega))
    refine ⟨hne '"' (by decide) hquote, hne '\\' (by decide) hbackslash, ?_⟩
    rw [UInt8.lt_iff_toNat_lt]
    simp only [UInt8.toNat_ofNat', UInt8.reduceToNat]
    omega
  · have hle := le_of_mem_utf8EncodeChar (Nat.le_of_not_lt h) hb
    rw [UInt8.le_iff_toNat_le] at hle
    simp only [UInt8.reduceToNat] at hle
    refine ⟨?_, ?_, ?_⟩
    · rintro rfl
      simp at hle
    · rintro rfl
      simp at hle
    · rw [UInt8.lt_iff_toNat_lt]
      simp only [UInt8.reduceToNat]
      omega

end EnvelopeClient.Utf8
