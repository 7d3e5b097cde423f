import EnvelopeClient.Json.SyntaxError
import EnvelopeClient.Json.Value

/-!
# Number texts

A number is read one byte at a time. Its digits are collected into a 64-bit significand; whole
digits that no longer fit raise the decimal scale instead, and fraction digits that no longer fit
are ignored. A text without fraction and exponent that fits 64 bits is an integer; every other text
is the binary64 number `significand · 10 ^ scale`, computed by one multiplication or division with
a power of ten, so it may differ from the nearest number in its last place.
-/

namespace EnvelopeClient.Json

/-- How much of a number text has been read. -/
inductive Stage where
  /-- A minus sign. -/
  | minus
  /-- A leading zero, which no digit may follow. -/
  | zero
  /-- Whole digits that are all in the significand. -/
  | whole
  /-- Whole digits, the last of which did not fit the significand. -/
  | wholeBeyond
  /-- The decimal point. -/
  | point
  /-- Fraction digits that are all in the significand. -/
  | fraction
  /-- Fraction digits, the last of which did not fit the significand. -/
  | fractionBeyond
  /-- The exponent mark. -/
  | mark
  /-- The exponent's sign. -/
  | sign
  /-- Exponent digits. -/
  | exponent
  /-- Exponent digits that went beyond 32 bits and no longer matter. -/
  | exponentBeyond
  deriving DecidableEq, Repr

/-- A number text part way. -/
structure Numeral where
  /-- Whether it starts with a minus sign. -/
  negative : Bool
  /-- How far it has been read. -/
  stage : Stage
  /-- The collected digits, below `2 ^ 64`. -/
  significand : Nat
  /-- Power of ten by which the significand is to be read. -/
  scale : Int
  /-- Whether the exponent has a minus sign. -/
  exponentNegative : Bool
  /-- The collected exponent digits, below `2 ^ 31`. -/
  exponent : Nat

/-- What one more byte does to a number. -/
inductive NumeralStep where
  /-- The byte belongs to the number. -/
  | more (n : Numeral)
  /-- The number ended before the byte. -/
  | ended
  /-- The byte cannot stand here. -/
  | broken (fault : Fault)

/-- The value of a digit byte. -/
def digit? (b : UInt8) : Option Nat :=
  if 0x30 ≤ b && b ≤ 0x39 then some (b.toNat - 0x30) else none

/-- Whether a byte is `e` or `E`. -/
def isExponentMark (b : UInt8) : Bool :=
  b = 0x65 || b = 0x45

namespace Numeral

/-- A number whose text starts with a minus sign. -/
def ofMinus : Numeral := ⟨true, .minus, 0, 0, false, 0⟩

/-- A number whose text goes on with a first whole digit. -/
def firstDigit (negative : Bool) (d : Nat) : Numeral :=
  ⟨negative, if d = 0 then .zero else .whole, d, 0, false, 0⟩

/-- Takes in one more whole digit. -/
def wholeDigit (n : Numeral) (d : Nat) : Numeral :=
  if n.significand * 10 + d < 0x10000000000000000 then
    { n with stage := .whole, significand := n.significand * 10 + d }
  else { n with stage := .wholeBeyond, scale := n.scale + 1 }

/-- Takes in one more fraction digit. -/
def fractionDigit (n : Numeral) (d : Nat) : Numeral :=
  if n.significand * 10 + d < 0x10000000000000000 then
    { n with stage := .fraction, significand := n.significand * 10 + d, scale := n.scale - 1 }
  else { n with stage := .fractionBeyond }

/-- Takes in one more exponent digit. An exponent beyond 32 bits is out of range, unless the number
is zero or vanishes. -/
def exponentDigit (n : Numeral) (d : Nat) : NumeralStep :=
  if n.exponent * 10 + d < 0x80000000 then
    .more { n with stage := .exponent, exponent := n.exponent * 10 + d }
  else if n.significand ≠ 0 && !n.exponentNegative then .broken .numberOutOfRange
  else .more { n with stage := .exponentBeyond }

/-- A byte behind the whole digits that is not one of them. -/
def afterWhole (n : Numeral) (b : UInt8) : NumeralStep :=
  if b = 0x2e then .more { n with stage := .point }
  else if isExponentMark b then .more { n with stage := .mark }
  else .ended

/-- A byte behind the fraction digits that is not one of them. -/
def afterFraction (n : Numeral) (b : UInt8) : NumeralStep :=
  if isExponentMark b then .more { n with stage := .mark } else .ended

/-- Reads one byte. -/
def step (n : Numeral) (b : UInt8) : NumeralStep :=
  match n.stage, digit? b with
  | .minus, some d => .more (firstDigit true d)
  | .minus, none => .broken .invalidNumber
  | .zero, some _ => .broken .invalidNumber
  | .zero, none => n.afterWhole b
  | .whole, some d => .more (n.wholeDigit d)
  | .whole, none => n.afterWhole b
  | .wholeBeyond, some _ => .more { n with scale := n.scale + 1 }
  | .wholeBeyond, none => n.afterWhole b
  | .point, some d => .more (n.fractionDigit d)
  | .point, none => .broken .invalidNumber
  | .fraction, some d => .more (n.fractionDigit d)
  | .fraction, none => n.afterFraction b
  | .fractionBeyond, some _ => .more n
  | .fractionBeyond, none => n.afterFraction b
  | .mark, some d => .more { n with stage := .exponent, exponent := d }
  | .mark, none =>
    if b = 0x2b then .more { n with stage := .sign }
    else if b = 0x2d then .more { n with stage := .sign, exponentNegative := true }
    else .broken .invalidNumber
  | .sign, some d => .more { n with stage := .exponent, exponent := d }
  | .sign, none => .broken .invalidNumber
  | .exponent, some d => n.exponentDigit d
  | .exponent, none => .ended
  | .exponentBeyond, some _ => .more n
  | .exponentBeyond, none => .ended

/-- Whether the text may end here: a sign, a point and an exponent mark need a digit. -/
def isWhole (n : Numeral) : Bool :=
  match n.stage with
  | .minus | .point | .mark | .sign => false
  | _ => true

/-- A power of ten, at most `10 ^ 308`. -/
def powerOfTen (k : Nat) : Float :=
  Float.ofScientific 1 false k

/-- `f · 10 ^ e`, in steps of at most `10 ^ 308`, or `none` where that is beyond the largest
number. -/
def scaled? (f : Float) (e : Int) : Option Float :=
  if e.natAbs ≤ 308 then
    if 0 ≤ e then
      let product := f * powerOfTen e.toNat
      if product.isInf then none else some product
    else some (f / powerOfTen (-e).toNat)
  else if f == 0 then some f
  else if 0 ≤ e then none
  else scaled? (f / powerOfTen 308) (e + 308)
termination_by (-e).toNat

/-- Brings an exponent into the range of 32 bits. -/
def saturate (e : Int) : Int :=
  max (-0x80000000) (min 0x7fffffff e)

/-- The number as binary64, or `none` if it is too large. -/
def float? (n : Numeral) : Option Float :=
  let magnitude? : Option Float :=
    match n.stage with
    | .exponentBeyond => some 0
    | .exponent =>
      let e : Int := if n.exponentNegative then n.scale - n.exponent else n.scale + n.exponent
      scaled? (UInt64.ofNat n.significand).toFloat (saturate e)
    | _ => scaled? (UInt64.ofNat n.significand).toFloat n.scale
  magnitude?.map fun f => if n.negative then -f else f

/-- The number whose text ends here, or `none` if it is too large. A negative zero and an integer
that does not fit 64 bits are binary64 numbers. -/
def value? (n : Numeral) : Option Number :=
  match n.stage with
  | .zero | .whole =>
    if !n.negative then some (.int n.significand)
    else if 0 < n.significand && n.significand ≤ 0x8000000000000000 then
      some (.int (-n.significand))
    else some (.float (-(UInt64.ofNat n.significand).toFloat))
  | _ => n.float?.map .float

end Numeral

end EnvelopeClient.Json
