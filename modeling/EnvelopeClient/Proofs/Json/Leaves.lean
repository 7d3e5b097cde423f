import EnvelopeClient.Json.Printer
import EnvelopeClient.Proofs.Json.Passage
import EnvelopeClient.Proofs.Text.Bytes

/-!
# Strings and integers are read as they are written

The texts without parts of their own. Every character's escape adds the character's bytes to the
string that is being read (`run?_escapeChar`), so the text of a string closes with that string; the
digits of an integer build up its value without ever leaving 64 bits (`passes_digits`).
-/

namespace EnvelopeClient.Json

open Utf8

/-! ### Characters -/

/-- What stands between the quotation marks of a string's text. -/
def innerText (s : String) : List UInt8 := bytes (s.toList.flatMap escapeChar)

theorem bytes_stringText (s : String) : bytes (stringText s) = 0x22 :: (innerText s ++ [0x22]) := by
  simp [stringText, bytes_cons, innerText]
  rfl

namespace StringText

/-- The string text some bytes lead to, if the string goes on behind them. -/
def run? (s : StringText) : List UInt8 → Option StringText
  | [] => some s
  | b :: rest =>
    match s.step b with
    | .more s => s.run? rest
    | _ => none

theorem run?_append {s t : StringText} {p : List UInt8} (h : s.run? p = some t)
    (q : List UInt8) : s.run? (p ++ q) = t.run? q := by
  induction p generalizing s with
  | nil =>
    obtain rfl : s = t := by simpa [run?] using h
    rfl
  | cons b p ih =>
    rw [run?] at h
    rw [List.cons_append, run?]
    split at h
    · next s' hs => exact ih h
    · cases h

/-- Plain bytes are taken in as they are. -/
theorem run?_plain {p : List UInt8} (h : ∀ b ∈ p, IsPlain b) (content : List UInt8) :
    run? ⟨content, .plain⟩ p = some ⟨p.reverse ++ content, .plain⟩ := by
  induction p generalizing content with
  | nil => rfl
  | cons b p ih =>
    obtain ⟨hquote, hbackslash, hcontrol⟩ := h b (by simp)
    rw [run?, step]
    simp only [if_neg hquote, if_neg hbackslash, if_neg hcontrol]
    rw [ih fun c hc => h c (by simp [hc])]
    simp

/-- The four digits written for a control character name it. -/
theorem hexUnit?_control : ∀ n : Fin 32,
    hexUnit? ((bytes [Nat.digitChar (n / 16), Nat.digitChar (n % 16)]).reverse ++ [0x30, 0x30]) =
      some n.val := by
  decide

/-- A control character is read from its six-byte escape. -/
theorem run?_unitEscape {c : Char} (h : c.toNat < 0x20) (content : List UInt8) :
    run? ⟨content, .plain⟩ (bytes (unitEscape c)) =
      some ⟨(String.utf8EncodeChar c).reverse ++ content, .plain⟩ := by
  -- both digits are single bytes, and no half of a surrogate pair is below 0x20
  have hdigit : ∀ k : Fin 16,
      String.utf8EncodeChar (Nat.digitChar k) = [UInt8.ofNat (Nat.digitChar k).toNat] := by decide
  have hhigh := hdigit ⟨c.toNat / 16, by omega⟩
  have hlow := hdigit ⟨c.toNat % 16, by omega⟩
  have hunit := hexUnit?_control ⟨c.toNat, h⟩
  simp only [bytes_cons, bytes_nil, List.append_nil, hhigh, hlow, List.cons_append,
    List.nil_append, List.reverse_cons, List.reverse_nil] at hunit
  have hcode : Char.ofNat c.toNat = c := Char.ofNat_toNat c
  have hnotLow : isLowHalf c.toNat = false := by
    simp only [isLowHalf, Bool.and_eq_false_iff, decide_eq_false_iff_not]
    omega
  have hnotHigh : isHighHalf c.toNat = false := by
    simp only [isHighHalf, Bool.and_eq_false_iff, decide_eq_false_iff_not]
    omega
  have hbytes : bytes (unitEscape c) =
      [0x5c, 0x75, 0x30, 0x30, UInt8.ofNat (Nat.digitChar (c.toNat / 16)).toNat,
        UInt8.ofNat (Nat.digitChar (c.toNat % 16)).toNat] := by
    simp only [unitEscape, bytes_cons, bytes_nil, hhigh, hlow]
    rfl
  have htake : takeUnit content
      [UInt8.ofNat (Nat.digitChar (c.toNat % 16)).toNat,
        UInt8.ofNat (Nat.digitChar (c.toNat / 16)).toNat, 0x30, 0x30] =
      .more (pushCode content c.toNat) := by
    simp only [takeUnit, hunit, hnotLow, hnotHigh, Bool.false_eq_true, if_false]
  rw [hbytes]
  simp [run?, step, htake, pushCode, hcode, encode_eq_bytes, bytes_cons]

/-- The text of a character adds the bytes of that character. -/
theorem run?_escapeChar (c : Char) (content : List UInt8) :
    run? ⟨content, .plain⟩ (bytes (escapeChar c)) =
      some ⟨(String.utf8EncodeChar c).reverse ++ content, .plain⟩ := by
  rw [escapeChar]
  by_cases hquote : c = '"'
  · subst hquote; rfl
  by_cases hbackslash : c = '\\'
  · subst hbackslash; rfl
  by_cases hnewline : c = '\n'
  · subst hnewline; rfl
  by_cases hreturn : c = '\r'
  · subst hreturn; rfl
  by_cases htab : c = '\t'
  · subst htab; rfl
  by_cases hbackspace : c = '\x08'
  · subst hbackspace; rfl
  by_cases hfeed : c = '\x0c'
  · subst hfeed; rfl
  simp only [if_neg hquote, if_neg hbackslash, if_neg hnewline, if_neg hreturn, if_neg htab,
    if_neg hbackspace, if_neg hfeed]
  by_cases hcontrol : c.toNat < 0x20
  · rw [if_pos hcontrol]
    exact run?_unitEscape hcontrol content
  · rw [if_neg hcontrol]
    simp only [bytes_cons, bytes_nil, List.append_nil]
    exact run?_plain (fun b hb => plain_of_mem_utf8EncodeChar hquote hbackslash hcontrol hb) content

/-- The texts of characters add the bytes of the characters. -/
theorem run?_flatMap_escapeChar (cs : List Char) (content : List UInt8) :
    run? ⟨content, .plain⟩ (bytes (cs.flatMap escapeChar)) =
      some ⟨(bytes cs).reverse ++ content, .plain⟩ := by
  induction cs generalizing content with
  | nil => rfl
  | cons c cs ih =>
    rw [List.flatMap_cons, bytes_append, run?_append (run?_escapeChar c content), ih]
    simp [bytes_cons]

theorem run?_innerText (s : String) :
    run? .empty (innerText s) = some ⟨(bytes s.toList).reverse, .plain⟩ := by
  have hinner := run?_flatMap_escapeChar s.toList []
  rw [List.append_nil] at hinner
  exact hinner

/-- A string whose bytes have been read closes with them. -/
theorem step_quote (s : String) : step ⟨(bytes s.toList).reverse, .plain⟩ 0x22 = .closed s := by
  rw [step]
  simp only [if_true, close, List.reverse_reverse, ← encode_eq_bytes, decode?_encode]

end StringText

/-! ### Strings -/

namespace State

theorem passes_of_run? {text text' : StringText} {p : List UInt8} (h : text.run? p = some text')
    (enclosing : List Enclosing) (role : StringRole) :
    Passes ⟨enclosing, .string role text⟩ p ⟨enclosing, .string role text'⟩ := by
  induction p generalizing text with
  | nil =>
    obtain rfl : text = text' := by simpa [StringText.run?] using h
    exact .nil _
  | cons b p ih =>
    rw [StringText.run?] at h
    split at h
    · next next hnext =>
      refine .cons (t := ⟨enclosing, .string role next⟩) ?_ (unfinished_string _ _ _) (ih h)
      rw [step]
      simp only [hnext]
    · cases h

/-- The text of a string leads from where a string may begin to where it has been taken in. -/
theorem passes_stringText {s t : State} {enclosing : List Enclosing} (role : StringRole)
    (str : String) (hopen : s.step 0x22 = .more ⟨enclosing, .string role .empty⟩)
    (hclose : ∀ text : StringText, text.step 0x22 = .closed str →
      step ⟨enclosing, .string role text⟩ 0x22 = .more t)
    (ht : t.Unfinished) : Passes s (bytes (stringText str)) t := by
  have hinner := passes_of_run? (StringText.run?_innerText str) enclosing role
  rw [bytes_stringText]
  refine .cons hopen (unfinished_string _ _ _) (.append hinner ?_)
  exact .single (hclose _ (StringText.step_quote str)) ht

/-- A string as a value. -/
theorem passes_string (str : String) (e : Enclosing) (outer : List Enclosing) :
    Passes ⟨e :: outer, .value⟩ (bytes (stringText str)) (behind e outer (.string str)) := by
  refine passes_stringText .value str rfl ?_ (unfinished_behind _ _ _)
  intro text htext
  rw [step]
  simp only [htext, deliverTaken_cons]

/-- A string as the key of a member, behind an opening brace or a comma. -/
theorem passes_key {s : State} {enclosing : List Enclosing} {members : Members} (key : String)
    (h : s.step 0x22 = .more ⟨enclosing, .string (.key members) .empty⟩) :
    Passes s (bytes (stringText key)) ⟨enclosing, .afterKey members key⟩ := by
  refine passes_stringText _ key h ?_ ⟨.object, fun _ => rfl⟩
  intro text htext
  rw [step]
  simp only [htext]

end State

/-! ### Integers -/

/-- The byte of a digit. -/
def digitByte (d : Nat) : UInt8 := UInt8.ofNat (0x30 + d)

theorem utf8EncodeChar_digitChar : ∀ d : Fin 10,
    String.utf8EncodeChar (Nat.digitChar d) = [digitByte d] := by
  decide

theorem digit?_digitByte : ∀ d : Fin 10, digit? (digitByte d) = some d.val := by
  decide

/-- The digits of a number are those of its tenth part and a last one. -/
theorem toDigits_induction {motive : Nat → List UInt8 → Prop}
    (digit : ∀ d : Fin 10, motive d [digitByte d])
    (last : ∀ (k : Nat) (d : Fin 10) (p : List UInt8), k ≠ 0 → motive k p →
      motive (k * 10 + d) (p ++ [digitByte d])) (k : Nat) :
    motive k (bytes (Nat.toDigits 10 k)) := by
  induction k using Nat.strongRecOn with
  | _ k ih =>
    by_cases hlt : k < 10
    · have htext : bytes (Nat.toDigits 10 k) = [digitByte k] := by
        rw [Nat.toDigits_of_lt_base hlt, bytes_cons, bytes_nil, List.append_nil,
          utf8EncodeChar_digitChar ⟨k, hlt⟩]
      rw [htext]
      exact digit ⟨k, hlt⟩
    · have hlast : k % 10 < 10 := Nat.mod_lt k (by decide)
      have htext : bytes (Nat.toDigits 10 k) =
          bytes (Nat.toDigits 10 (k / 10)) ++ [digitByte (k % 10)] := by
        rw [Nat.toDigits_of_base_le (by decide) (by omega), bytes_append, bytes_cons, bytes_nil,
          List.append_nil, utf8EncodeChar_digitChar ⟨k % 10, hlast⟩]
      have hk := last (k / 10) ⟨k % 10, hlast⟩ _ (by omega) (ih (k / 10) (by omega))
      have hvalue : k / 10 * 10 + k % 10 = k := Nat.div_add_mod' k 10
      simp only [hvalue] at hk
      rw [htext]
      exact hk

/-- The text of a natural number begins with a digit. -/
theorem exists_cons_toDigits (k : Nat) :
    ∃ (d : Fin 10) (rest : List UInt8), bytes (Nat.toDigits 10 k) = digitByte d :: rest := by
  refine toDigits_induction
    (motive := fun _ p => ∃ (d : Fin 10) (rest : List UInt8), p = digitByte d :: rest) ?_ ?_ k
  · intro d
    exact ⟨d, [], rfl⟩
  · rintro k d p - ⟨first, rest, rfl⟩
    exact ⟨first, rest ++ [digitByte d], rfl⟩

/-- The text of a natural number is made of digits. -/
theorem digit?_of_mem_toDigits (k : Nat) : ∀ b ∈ bytes (Nat.toDigits 10 k), digit? b ≠ none := by
  refine toDigits_induction (motive := fun _ p => ∀ b ∈ p, digit? b ≠ none) ?_ ?_ k
  · intro d b hb
    rw [List.mem_singleton.mp hb, digit?_digitByte]
    exact Option.some_ne_none _
  · intro k d p _ ih b hb
    rcases List.mem_append.mp hb with hb | hb
    · exact ih b hb
    · rw [List.mem_singleton.mp hb, digit?_digitByte]
      exact Option.some_ne_none _

/-- The numeral behind all digits of a number. -/
def Numeral.ofNat (negative : Bool) (k : Nat) : Numeral :=
  ⟨negative, if k = 0 then .zero else .whole, k, 0, false, 0⟩

namespace State

theorem unfinished_ofNat (e : Enclosing) (outer : List Enclosing) (negative : Bool) (k : Nat) :
    Unfinished ⟨e :: outer, .number (.ofNat negative k)⟩ := by
  refine unfinished_number e outer fun _ => ?_
  by_cases hk : k = 0
  · subst hk
    cases negative <;> exact ⟨_, rfl⟩
  · simp only [Numeral.ofNat, if_neg hk, Numeral.value?]
    split
    · exact ⟨_, rfl⟩
    · split <;> exact ⟨_, rfl⟩

/-- The digits of a number lead from where its first digit may stand to the numeral of its
value. -/
theorem passes_digits {s : State} {e : Enclosing} {outer : List Enclosing} {negative : Bool}
    (hs : ∀ d : Fin 10,
      s.step (digitByte d) = .more ⟨e :: outer, .number (.firstDigit negative d)⟩)
    (k : Nat) (hk : k < 0x10000000000000000) :
    Passes s (bytes (Nat.toDigits 10 k)) ⟨e :: outer, .number (.ofNat negative k)⟩ := by
  revert hk
  refine toDigits_induction (motive := fun k p => k < 0x10000000000000000 →
    Passes s p ⟨e :: outer, .number (.ofNat negative k)⟩) ?_ ?_ k
  · intro d _
    exact .single (hs d) (unfinished_ofNat e outer negative d)
  · -- the numeral behind the digits before the last is not zero, so it takes one more
    intro k d p hk0 ih hlt
    refine (ih (by omega)).append (.single ?_ (unfinished_ofNat e outer negative _))
    have hnew : k * 10 + d.val ≠ 0 := by omega
    simp only [step, Numeral.ofNat, if_neg hk0, if_neg hnew, Numeral.step, digit?_digitByte d,
      Numeral.wholeDigit, if_pos hlt]

theorem digit?_of_isSeparator {b : UInt8} (h : IsSeparator b) : digit? b = none := by
  rcases h with rfl | rfl | rfl <;> rfl

/-- A separator behind a whole number ends it. -/
theorem step_ofNat {e : Enclosing} {outer : List Enclosing} {negative : Bool} {k : Nat}
    {n : Int} (h : (Numeral.ofNat negative k).value? = some (.int n)) :
    EndsAs ⟨e :: outer, .number (.ofNat negative k)⟩ (behind e outer (.int n)) := by
  intro b hb
  have hended : (Numeral.ofNat negative k).step b = .ended := by
    have hdigit := digit?_of_isSeparator hb
    have hafter : (Numeral.ofNat negative k).afterWhole b = .ended := by
      rcases hb with rfl | rfl | rfl <;> rfl
    by_cases hk : k = 0 <;>
      simp_all [Numeral.step, Numeral.ofNat]
  simp only [step, hended, h]
  exact afterNumber_cons e outer (.int n) b

/-- A digit begins a number. -/
theorem step_digitByte (enclosing : List Enclosing) (d : Fin 10) :
    step ⟨enclosing, .value⟩ (digitByte d) = .more ⟨enclosing, .number (.firstDigit false d)⟩ := by
  have hfresh : ∀ d : Fin 10, isBlank (digitByte d) = false ∧ digitByte d ≠ 0x7b ∧
      digitByte d ≠ 0x5b ∧ digitByte d ≠ 0x22 ∧ digitByte d ≠ 0x6e ∧ digitByte d ≠ 0x74 ∧
      digitByte d ≠ 0x66 ∧ digitByte d ≠ 0x2d := by decide
  obtain ⟨hblank, hbrace, hbracket, hquote, hn, ht, hf, hminus⟩ := hfresh d
  simp only [step, hblank, Bool.false_eq_true, if_false, beginValue, if_neg hbrace,
    if_neg hbracket, if_neg hquote, if_neg hn, if_neg ht, if_neg hf, if_neg hminus,
    digit?_digitByte]

/-- An integer as a value. -/
theorem passes_int {n : Int} (h : fitsInteger n) (e : Enclosing) (outer : List Enclosing) :
    ∃ t, Passes ⟨e :: outer, .value⟩ (bytes (intText n)) t ∧ t.EndsAs (behind e outer (.int n)) := by
  simp only [fitsInteger, Bool.and_eq_true, decide_eq_true_eq] at h
  cases n with
  | ofNat k =>
    rw [Int.ofNat_eq_natCast] at h
    refine ⟨_, passes_digits (step_digitByte (e :: outer)) k (by omega), step_ofNat ?_⟩
    by_cases hk : k = 0 <;> simp [Numeral.ofNat, Numeral.value?, hk]
  | negSucc k =>
    refine ⟨⟨e :: outer, .number (.ofNat true (k + 1))⟩, ?_, step_ofNat ?_⟩
    · rw [intText, bytes_cons]
      refine .append (t := ⟨e :: outer, .number .ofMinus⟩) ?_ (passes_digits ?_ _ (by omega))
      · exact .single rfl (unfinished_number e outer fun h => absurd h (by decide))
      · intro d
        simp only [step, Numeral.ofMinus, Numeral.step, digit?_digitByte]
    · have hfits : (decide (0 < k + 1) && decide (k + 1 ≤ 0x8000000000000000)) = true := by
        rw [Bool.and_eq_true, decide_eq_true_eq, decide_eq_true_eq]
        omega
      simp only [Numeral.ofNat, Numeral.value?, if_neg (Nat.succ_ne_zero k), Bool.not_true, hfits,
        if_true, Int.negSucc_eq]
      rfl

end State

end EnvelopeClient.Json
