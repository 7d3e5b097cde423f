import EnvelopeClient.Proofs.Json.RoundTrip

/-!
# Where a text ends

The compact text of a value ends where it is seen to end: if the texts of two values start the same
bytes, and a separator stands behind either of them, the values are equal and so are the bytes
behind them (`toldApart_value`). An object needs no separator, since its last brace ends it
(`object_append_inj`). No reader takes part in this, so it holds at any depth and for integers of
any size.

The first byte tells the kind of the value. A string ends at its first quotation mark that is not
escaped, an integer in front of the first byte that is no digit, and the elements of an array or an
object end with a comma or the closing bracket (`sequence_append_inj`).
-/

namespace EnvelopeClient.Json

open Utf8

/-! ### What stands behind a text -/

/-- Bytes that can stand behind a value inside a container: a comma or a closing bracket, and
anything behind it. -/
def Separated (p : List UInt8) : Prop := ∃ b rest, p = b :: rest ∧ State.IsSeparator b

/-- The texts of two things, with separators behind them, start the same bytes only if the things
are equal. -/
def ToldApart {α : Type} (text : α → List UInt8) (a b : α) : Prop :=
  ∀ p q, Separated p → Separated q → text a ++ p = text b ++ q → a = b ∧ p = q

/-! ### Integers -/

/-- Digits end in front of the first byte that is none. -/
theorem digits_append_inj {xs ys p q : List UInt8}
    (hxs : ∀ b ∈ xs, digit? b ≠ none) (hys : ∀ b ∈ ys, digit? b ≠ none)
    (hp : ∀ b ∈ p.head?, digit? b = none) (hq : ∀ b ∈ q.head?, digit? b = none)
    (h : xs ++ p = ys ++ q) : xs = ys ∧ p = q := by
  rcases List.append_eq_append_iff.mp h with ⟨more, rfl, rfl⟩ | ⟨more, rfl, rfl⟩
  · cases more with
    | nil => exact ⟨(List.append_nil _).symm, rfl⟩
    | cons b more => exact absurd (hp b rfl) (hys b (by simp))
  · cases more with
    | nil => exact ⟨List.append_nil _, rfl⟩
    | cons b more => exact absurd (hq b rfl) (hxs b (by simp))

theorem Separated.digit?_head {p : List UInt8} (h : Separated p) :
    ∀ b ∈ p.head?, digit? b = none := by
  obtain ⟨c, rest, rfl, hc⟩ := h
  intro b hb
  obtain rfl : c = b := Option.some.inj hb
  exact State.digit?_of_isSeparator hc

theorem toDigits_append_inj {j k : Nat} {p q : List UInt8} (hp : Separated p) (hq : Separated q)
    (h : bytes (Nat.toDigits 10 j) ++ p = bytes (Nat.toDigits 10 k) ++ q) : j = k ∧ p = q := by
  obtain ⟨hdigits, hrest⟩ := digits_append_inj (digit?_of_mem_toDigits j)
    (digit?_of_mem_toDigits k) hp.digit?_head hq.digit?_head h
  refine ⟨?_, hrest⟩
  calc
    j = Nat.ofDigitChars 10 (Nat.toDigits 10 j) 0 := Nat.ofDigitChars_ten_toDigits.symm
    _ = Nat.ofDigitChars 10 (Nat.toDigits 10 k) 0 := by rw [bytes_inj hdigits]
    _ = k := Nat.ofDigitChars_ten_toDigits

/-- A natural number does not begin with a minus sign. -/
theorem toDigits_append_ne_minus (k : Nat) (p rest : List UInt8) :
    bytes (Nat.toDigits 10 k) ++ p ≠ 0x2d :: rest := by
  obtain ⟨d, more, htext⟩ := exists_cons_toDigits k
  have hne : ∀ d : Fin 10, digitByte d ≠ 0x2d := by decide
  rw [htext]
  intro h
  exact hne d (List.cons.inj h).1

theorem bytes_negSucc (k : Nat) :
    bytes (intText (.negSucc k)) = 0x2d :: bytes (Nat.toDigits 10 (k + 1)) := rfl

/-- Integers are told apart by their texts. -/
theorem toldApart_int (m n : Int) : ToldApart (fun n => bytes (intText n)) m n := by
  intro p q hp hq h
  cases m with
  | ofNat j =>
    cases n with
    | ofNat k =>
      obtain ⟨rfl, hrest⟩ := toDigits_append_inj hp hq h
      exact ⟨rfl, hrest⟩
    | negSucc k =>
      simp only [bytes_negSucc, List.cons_append] at h
      exact absurd h (toDigits_append_ne_minus j p _)
  | negSucc j =>
    cases n with
    | ofNat k =>
      simp only [bytes_negSucc, List.cons_append] at h
      exact absurd h.symm (toDigits_append_ne_minus k q _)
    | negSucc k =>
      simp only [bytes_negSucc, List.cons_append] at h
      obtain ⟨hsucc, hrest⟩ := toDigits_append_inj hp hq (List.cons.inj h).2
      obtain rfl : j = k := Nat.succ.inj hsucc
      exact ⟨rfl, hrest⟩

/-! ### Strings -/

namespace StringText

/-- The inside of no string has a quotation mark where the inside of another one is over. -/
theorem innerText_ne (s t : String) (more : List UInt8) :
    innerText t ≠ innerText s ++ 0x22 :: more := by
  intro h
  -- a reader that has come through the inside of `s` is closed by the mark
  have hrun := run?_innerText t
  rw [h, run?_append (run?_innerText s), run?] at hrun
  simp only [step_quote] at hrun
  cases hrun

theorem innerText_inj {s t : String} (h : innerText s = innerText t) : s = t := by
  have hrun := run?_innerText s
  rw [h, run?_innerText t, Option.some.injEq] at hrun
  have hclosed := step_quote s
  rw [← hrun, step_quote t] at hclosed
  exact (StringStep.closed.inj hclosed).symm

/-- Two strings whose texts start the same bytes are equal if the inside of the second begins with
that of the first. -/
theorem eq_of_innerText_append {s t : String} {more p q : List UInt8}
    (ht : innerText t = innerText s ++ more) (h : 0x22 :: p = more ++ 0x22 :: q) :
    s = t ∧ p = q := by
  cases more with
  | nil =>
    rw [List.append_nil] at ht
    exact ⟨(innerText_inj ht).symm, (List.cons.inj h).2⟩
  | cons b more =>
    obtain ⟨rfl, -⟩ := List.cons.inj h
    exact absurd ht (innerText_ne s t more)

end StringText

/-- Strings are told apart by their texts, whatever stands behind. -/
theorem string_append_inj {s t : String} {p q : List UInt8}
    (h : bytes (stringText s) ++ p = bytes (stringText t) ++ q) : s = t ∧ p = q := by
  simp only [bytes_stringText, List.cons_append, List.append_assoc, List.nil_append,
    List.cons.injEq, true_and] at h
  rcases List.append_eq_append_iff.mp h with ⟨more, ht, hp⟩ | ⟨more, hs, hq⟩
  · exact StringText.eq_of_innerText_append ht hp
  · obtain ⟨rfl, rfl⟩ := StringText.eq_of_innerText_append hs hq
    exact ⟨rfl, rfl⟩

/-! ### Sequences -/

section Sequence

variable {α : Type} (text : α → List UInt8)

/-- The texts of some elements, each behind a comma. -/
def furtherText (xs : List α) : List UInt8 := xs.flatMap fun x => 0x2c :: text x

/-- The texts of some elements, with commas between them. -/
def sequenceText : List α → List UInt8
  | [] => []
  | x :: rest => text x ++ furtherText text rest

variable {text} {xs ys : List α} {closing : UInt8} {p q : List UInt8}

theorem separated_furtherText (hclosing : State.IsSeparator closing) (xs : List α)
    (p : List UInt8) : Separated (furtherText text xs ++ closing :: p) := by
  cases xs with
  | nil => exact ⟨closing, p, rfl, hclosing⟩
  | cons x rest => exact ⟨0x2c, _, rfl, .inl rfl⟩

theorem further_append_inj (hclosing : State.IsSeparator closing) (hne : closing ≠ 0x2c)
    (happart : ∀ x ∈ xs, ∀ y ∈ ys, ToldApart text x y)
    (h : furtherText text xs ++ closing :: p = furtherText text ys ++ closing :: q) :
    xs = ys ∧ p = q := by
  induction xs generalizing ys with
  | nil =>
    cases ys with
    | nil => exact ⟨rfl, (List.cons.inj h).2⟩
    | cons y ys => exact absurd (List.cons.inj h).1 hne
  | cons x xs ih =>
    cases ys with
    | nil => exact absurd (List.cons.inj h).1.symm hne
    | cons y ys =>
      have hfirst : text x ++ (furtherText text xs ++ closing :: p) =
          text y ++ (furtherText text ys ++ closing :: q) := by
        simpa [furtherText] using h
      obtain ⟨rfl, hrest⟩ := happart x (by simp) y (by simp) _ _
        (separated_furtherText hclosing xs p) (separated_furtherText hclosing ys q) hfirst
      obtain ⟨rfl, hpq⟩ := ih (fun a ha b hb => happart a (by simp [ha]) b (by simp [hb])) hrest
      exact ⟨rfl, hpq⟩

/-- Sequences that the same bracket closes are told apart if their elements are and none of these
begins like the bracket. -/
theorem sequence_append_inj (hclosing : State.IsSeparator closing) (hne : closing ≠ 0x2c)
    (happart : ∀ x ∈ xs, ∀ y ∈ ys, ToldApart text x y)
    (hxs : ∀ x ∈ xs, ∃ b rest, text x = b :: rest ∧ b ≠ closing)
    (hys : ∀ y ∈ ys, ∃ b rest, text y = b :: rest ∧ b ≠ closing)
    (h : sequenceText text xs ++ closing :: p = sequenceText text ys ++ closing :: q) :
    xs = ys ∧ p = q := by
  cases xs with
  | nil =>
    cases ys with
    | nil => exact ⟨rfl, (List.cons.inj h).2⟩
    | cons y ys =>
      obtain ⟨b, rest, htext, hb⟩ := hys y (by simp)
      rw [sequenceText, sequenceText, htext] at h
      exact absurd (List.cons.inj h).1.symm hb
  | cons x xs =>
    cases ys with
    | nil =>
      obtain ⟨b, rest, htext, hb⟩ := hxs x (by simp)
      rw [sequenceText, sequenceText, htext] at h
      exact absurd (List.cons.inj h).1 hb
    | cons y ys =>
      rw [sequenceText, sequenceText, List.append_assoc, List.append_assoc] at h
      obtain ⟨rfl, hrest⟩ := happart x (by simp) y (by simp) _ _
        (separated_furtherText hclosing xs p) (separated_furtherText hclosing ys q) h
      obtain ⟨rfl, hpq⟩ := further_append_inj hclosing hne
        (fun a ha b hb => happart a (by simp [ha]) b (by simp [hb])) hrest
      exact ⟨rfl, hpq⟩

end Sequence

/-! ### The texts of containers -/

/-- The bytes of a value's text. -/
def valueText (v : Value) : List UInt8 := bytes v.chars

/-- The bytes of a member's text. -/
def memberText (m : String × Value) : List UInt8 := bytes (stringText m.1) ++ 0x3a :: valueText m.2

theorem bytes_itemChars (items : List Value) :
    bytes (itemChars items) = sequenceText valueText items := by
  induction items with
  | nil => rfl
  | cons v rest ih =>
    cases rest with
    | nil => simp [itemChars, sequenceText, furtherText, valueText]
    | cons w rest =>
      rw [itemChars, bytes_append, State.bytes_comma, ih]
      · simp [sequenceText, furtherText, valueText]
      · simp

theorem bytes_memberChars (members : List (String × Value)) :
    bytes (memberChars members) = sequenceText memberText members := by
  induction members with
  | nil => rfl
  | cons m rest ih =>
    obtain ⟨key, v⟩ := m
    cases rest with
    | nil =>
      simp [memberChars, sequenceText, furtherText, memberText, valueText, State.bytes_colon]
    | cons m rest =>
      rw [memberChars, bytes_append, State.bytes_colon, bytes_append, State.bytes_comma, ih]
      · simp [sequenceText, furtherText, memberText, valueText]
      · simp

theorem valueText_array (items : List Value) :
    valueText (.array items) = 0x5b :: (sequenceText valueText items ++ [0x5d]) := by
  rw [valueText, State.bytes_array, bytes_itemChars]

theorem valueText_object (members : List (String × Value)) :
    valueText (.object members) = 0x7b :: (sequenceText memberText members ++ [0x7d]) := by
  rw [valueText, State.bytes_object, bytes_memberChars]

/-! ### Kinds -/

/-- What the first byte of a text tells of its value. -/
inductive Kind where
  | null
  | bool (b : Bool)
  | number
  | string
  | array
  | object

/-- The kind of a value. -/
def Kind.ofValue : Value → Kind
  | .null => .null
  | .bool b => .bool b
  | .number _ => .number
  | .string _ => .string
  | .array _ => .array
  | .object _ => .object

/-- The kind of the value whose text begins with a byte. -/
def Kind.ofByte (b : UInt8) : Kind :=
  if b = 0x6e then .null
  else if b = 0x74 then .bool true
  else if b = 0x66 then .bool false
  else if b = 0x22 then .string
  else if b = 0x5b then .array
  else if b = 0x7b then .object
  else .number

theorem Kind.ofByte_digitByte (d : Fin 10) : Kind.ofByte (digitByte d) = .number := by
  have hne : ∀ d : Fin 10, digitByte d ≠ 0x6e ∧ digitByte d ≠ 0x74 ∧ digitByte d ≠ 0x66 ∧
      digitByte d ≠ 0x22 ∧ digitByte d ≠ 0x5b ∧ digitByte d ≠ 0x7b := by decide
  obtain ⟨hn, ht, hf, hquote, hbracket, hbrace⟩ := hne d
  simp [Kind.ofByte, hn, ht, hf, hquote, hbracket, hbrace]

theorem exists_cons_valueText {v : Value} (h : v.isFloatFree = true) :
    ∃ b rest, valueText v = b :: rest ∧ Kind.ofByte b = .ofValue v := by
  match v with
  | .null => exact ⟨0x6e, _, rfl, rfl⟩
  | .bool true => exact ⟨0x74, _, rfl, rfl⟩
  | .bool false => exact ⟨0x66, _, rfl, rfl⟩
  | .number (.int (.ofNat k)) =>
    obtain ⟨d, rest, htext⟩ := exists_cons_toDigits k
    exact ⟨digitByte d, rest, htext, Kind.ofByte_digitByte d⟩
  | .number (.int (.negSucc k)) => exact ⟨0x2d, _, rfl, rfl⟩
  | .number (.float x) => simp [Value.isFloatFree] at h
  | .string s => exact ⟨0x22, _, bytes_stringText s, rfl⟩
  | .array items => exact ⟨0x5b, _, valueText_array items, rfl⟩
  | .object members => exact ⟨0x7b, _, valueText_object members, rfl⟩

/-- Values whose texts start the same bytes are of one kind. -/
theorem Kind.ofValue_eq {v w : Value} {p q : List UInt8} (hv : v.isFloatFree = true)
    (hw : w.isFloatFree = true) (h : valueText v ++ p = valueText w ++ q) :
    Kind.ofValue v = .ofValue w := by
  obtain ⟨b, rest, hb, hkind⟩ := exists_cons_valueText hv
  obtain ⟨c, rest', hc, hkind'⟩ := exists_cons_valueText hw
  rw [hb, hc] at h
  rw [← hkind, ← hkind', (List.cons.inj h).1]

/-! ### Values -/

section Values

variable {items items' : List Value} {members members' : List (String × Value)}
  {p q : List UInt8}

/-- Arrays are told apart, whatever stands behind, if their items are. -/
theorem items_append_inj (hitems : ∀ v ∈ items, v.isFloatFree = true)
    (hitems' : ∀ v ∈ items', v.isFloatFree = true)
    (happart : ∀ v ∈ items, ∀ w ∈ items', ToldApart valueText v w)
    (h : valueText (.array items) ++ p = valueText (.array items') ++ q) :
    items = items' ∧ p = q := by
  have hfirst {v : Value} (hv : v.isFloatFree = true) :
      ∃ b rest, valueText v = b :: rest ∧ b ≠ 0x5d := by
    obtain ⟨b, rest, htext, -, hb⟩ := isValueText_chars hv
    exact ⟨b, rest, htext, hb⟩
  simp only [valueText_array, List.cons_append, List.append_assoc, List.nil_append,
    List.cons.injEq, true_and] at h
  exact sequence_append_inj (by simp [State.IsSeparator]) (by decide) happart
    (fun v hv => hfirst (hitems v hv)) (fun v hv => hfirst (hitems' v hv)) h

/-- Objects are told apart, whatever stands behind, if the values of their members are. -/
theorem members_append_inj
    (happart : ∀ m ∈ members, ∀ m' ∈ members', ToldApart valueText m.2 m'.2)
    (h : valueText (.object members) ++ p = valueText (.object members') ++ q) :
    members = members' ∧ p = q := by
  have hfirst (m : String × Value) : ∃ b rest, memberText m = b :: rest ∧ b ≠ 0x7d :=
    ⟨0x22, _, by rw [memberText, bytes_stringText]; rfl, by decide⟩
  simp only [valueText_object, List.cons_append, List.append_assoc, List.nil_append,
    List.cons.injEq, true_and] at h
  refine sequence_append_inj (by simp [State.IsSeparator]) (by decide) ?_ (fun m _ => hfirst m)
    (fun m _ => hfirst m) h
  -- a member is its key, a colon and its value
  intro m hm m' hm' p q hp hq hmember
  rw [memberText, memberText, List.append_assoc, List.append_assoc] at hmember
  obtain ⟨hkey, hrest⟩ := string_append_inj hmember
  obtain ⟨hvalue, hpq⟩ := happart m hm m' hm' p q hp hq (List.cons.inj hrest).2
  exact ⟨Prod.ext hkey hvalue, hpq⟩

/-- Values without binary64 numbers are told apart by their texts. -/
theorem toldApart_value (v w : Value) (hv : v.isFloatFree = true) (hw : w.isFloatFree = true) :
    ToldApart valueText v w := by
  intro p q hp hq h
  match v, w, Kind.ofValue_eq hv hw h with
  | .null, .null, _ => exact ⟨rfl, List.append_cancel_left h⟩
  | .bool b, .bool c, hkind =>
    obtain rfl : b = c := Kind.bool.inj hkind
    exact ⟨rfl, List.append_cancel_left h⟩
  | .number (.int m), .number (.int n), _ =>
    obtain ⟨rfl, hrest⟩ := toldApart_int m n p q hp hq h
    exact ⟨rfl, hrest⟩
  | .string s, .string t, _ =>
    obtain ⟨rfl, hrest⟩ := string_append_inj h
    exact ⟨rfl, hrest⟩
  | .array items, .array items', _ =>
    rw [Value.isFloatFree, Value.areFloatFree_iff] at hv hw
    obtain ⟨rfl, hrest⟩ := items_append_inj hv hw
      (fun v hmem w hmem' => toldApart_value v w (hv v hmem) (hw w hmem')) h
    exact ⟨rfl, hrest⟩
  | .object members, .object members', _ =>
    rw [Value.isFloatFree, Value.membersFloatFree_iff] at hv hw
    obtain ⟨rfl, hrest⟩ := members_append_inj
      (fun m hmem m' hmem' => toldApart_value m.2 m'.2 (hv m hmem) (hw m' hmem')) h
    exact ⟨rfl, hrest⟩
termination_by v
decreasing_by
  · have := List.sizeOf_lt_of_mem hmem
    simp only [Value.array.sizeOf_spec]
    omega
  · have := List.sizeOf_lt_of_mem hmem
    obtain ⟨key, v⟩ := m
    simp only [Value.object.sizeOf_spec, Prod.mk.sizeOf_spec] at this ⊢
    omega

/-- Objects without binary64 numbers are told apart by their texts, whatever stands behind. -/
theorem object_append_inj (hmembers : ∀ m ∈ members, m.2.isFloatFree = true)
    (hmembers' : ∀ m ∈ members', m.2.isFloatFree = true)
    (h : valueText (.object members) ++ p = valueText (.object members') ++ q) :
    members = members' ∧ p = q :=
  members_append_inj
    (fun m hm m' hm' => toldApart_value m.2 m'.2 (hmembers m hm) (hmembers' m' hm')) h

end Values

end EnvelopeClient.Json
