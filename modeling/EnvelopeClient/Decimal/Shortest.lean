/-!
# The fewest digits that read back

A positive binary fraction `m · 2 ^ q` stands for every real number that rounds to it: the
interval that reaches half way to its neighbours on both sides. `shortest` finds the decimal with
the fewest digits in that interval, and of several the one nearest to the value.

Everything is exact arithmetic on naturals. On the grid of decimals with `n` digits only the two
points around the value can be the answer: if any grid point lies in the interval, so does one of
these two. The grids are tried from one digit upwards, and the seventeenth always has a hit.
-/

namespace EnvelopeClient.Decimal

/-- A positive binary fraction together with the interval that rounds to it, all in units of one
quarter of the value's last place, `2 ^ scale`. -/
structure Rounding where
  /-- The value. -/
  value : Nat
  /-- Lower end of the interval. -/
  lower : Nat
  /-- Upper end of the interval. -/
  upper : Nat
  /-- Whether the ends themselves round to the value. -/
  closed : Bool
  /-- Power of two of the unit. -/
  scale : Int

/-- Splits the bits of a finite positive binary64 number. The gap below a power of two is half as
wide as the gap above it, except at the bottom of the range. -/
def Rounding.ofBits (bits : UInt64) : Rounding :=
  let field := (bits >>> 52).toNat % 2048
  let fraction := bits.toNat % 0x10000000000000
  let m := if field = 0 then fraction else fraction + 0x10000000000000
  let q : Int := if field = 0 then -1074 else (field : Int) - 1075
  { value := 4 * m
    lower := if fraction = 0 && 1 < field then 4 * m - 1 else 4 * m - 2
    upper := 4 * m + 2
    closed := m % 2 = 0
    scale := q - 2 }

/-- Which of two equally near decimals is taken. -/
inductive Tie where
  | toEven
  | up
  deriving DecidableEq, Repr

/-- Decimal digits `d₁ d₂ … dₙ`, without leading or trailing zeros, that stand for
`d₁.d₂…dₙ · 10 ^ exponent`. -/
structure Digits where
  digits : List Char
  exponent : Int

/-- Number of decimal digits of a positive natural. -/
def digitCount (n : Nat) : Nat :=
  (Nat.toDigits 10 n).length

/-- The exponent of the leading decimal digit of `num / den`. -/
def leadingExponent (num den : Nat) : Int :=
  if den ≤ num then (digitCount (num / den) : Int) - 1
  else -(digitCount ((den - 1) / num) : Int)

/-- Drops trailing zeros. -/
def dropTrailingZeros (digits : List Char) : List Char :=
  (digits.reverse.dropWhile (· = '0')).reverse

/-- The digits of `count` units of `10 ^ unit`. -/
def Digits.ofGrid (count : Nat) (unit : Int) : Digits :=
  let all := Nat.toDigits 10 count
  { digits := dropTrailingZeros all, exponent := unit + (all.length : Int) - 1 }

namespace Rounding

/-- Cross-multiplied factors: a point `count · 10 ^ unit` compares to a multiple `x` of the unit
`2 ^ scale` as `count * left` to `x * right`. -/
def factors (r : Rounding) (unit : Int) : Nat × Nat :=
  (Nat.pow 10 unit.toNat * Nat.pow 2 (-r.scale).toNat,
    Nat.pow 10 (-unit).toNat * Nat.pow 2 r.scale.toNat)

/-- Whether `count` units of `10 ^ unit` round to the value. -/
def holds (r : Rounding) (unit : Int) (count : Nat) : Bool :=
  let (left, right) := r.factors unit
  if r.closed then r.lower * right ≤ count * left && count * left ≤ r.upper * right
  else r.lower * right < count * left && count * left < r.upper * right

/-- The best point of one decimal grid, if the grid has a point that rounds to the value. -/
def onGrid? (r : Rounding) (tie : Tie) (unit : Int) : Option Nat :=
  let (left, right) := r.factors unit
  let exact := r.value * right
  let below := exact / left
  let above := below + 1
  match r.holds unit below, r.holds unit above with
  | false, false => none
  | true, false => some below
  | false, true => some above
  | true, true =>
    match compare (exact - below * left) (above * left - exact) with
    | .lt => some below
    | .gt => some above
    | .eq =>
      match tie with
      | .up => some above
      | .toEven => some (if below % 2 = 0 then below else above)

/-- Tries the grids of `n`, `n + 1`, … digits, `fuel` of them. -/
def search (r : Rounding) (tie : Tie) (leading : Int) : (n fuel : Nat) → Digits
  | n, 0 =>
    let unit := leading - (n : Int) + 1
    let (left, right) := r.factors unit
    .ofGrid (r.value * right / left) unit
  | n, fuel + 1 =>
    let unit := leading - (n : Int) + 1
    match r.onGrid? tie unit with
    | some count => .ofGrid count unit
    | none => search r tie leading (n + 1) fuel

/-- The fewest digits that round to the value. -/
def shortest (r : Rounding) (tie : Tie) : Digits :=
  let leading :=
    leadingExponent (r.value * Nat.pow 2 r.scale.toNat) (Nat.pow 2 (-r.scale).toNat)
  r.search tie leading 1 17

end Rounding

end EnvelopeClient.Decimal
