import EnvelopeClient.Decimal.Shortest

/-!
# Writing a binary64 number

The digits come from `Rounding.shortest`; a `Layout` says how they are set out. Positional text
always has a fraction, if only `.0`; scientific text has one digit before the point, no point when
there is only that digit, and an exponent whose sign is always written.
-/

namespace EnvelopeClient.Decimal

/-- The decisions of one way to write numbers. -/
structure Layout where
  /-- Exponents of the leading digit that are written positionally. -/
  positional : Int → Bool
  /-- Choice between two equally near decimals. -/
  tie : Tie

/-- Digits around a decimal point, at least one on either side. -/
def positionalText (d : Digits) : List Char :=
  let point := d.exponent + 1
  if point ≤ 0 then
    '0' :: '.' :: (List.replicate (-point).toNat '0' ++ d.digits)
  else
    let whole := d.digits.take point.toNat
    let fraction := d.digits.drop point.toNat
    whole ++ List.replicate (point.toNat - whole.length) '0' ++
      '.' :: (if fraction.isEmpty then ['0'] else fraction)

/-- One leading digit, the others behind a point, and a signed exponent. -/
def scientificText (d : Digits) : List Char :=
  let mantissa :=
    match d.digits with
    | first :: second :: rest => first :: '.' :: second :: rest
    | few => few
  let exponent := Nat.toDigits 10 d.exponent.natAbs
  mantissa ++ 'e' :: (if d.exponent < 0 then '-' else '+') :: exponent

/-- Whether the sign bit is set; it is for `-0.0` too. -/
def isNegative (x : Float) : Bool :=
  0x8000000000000000 ≤ x.toBits.toNat

namespace Layout

/-- The text of a finite number without its sign. -/
def magnitude (layout : Layout) (x : Float) : List Char :=
  let bits := x.toBits % 0x8000000000000000
  if bits = 0 then "0.0".toList
  else
    let d := (Rounding.ofBits bits).shortest layout.tie
    if layout.positional d.exponent then positionalText d else scientificText d

/-- The text of a finite number. -/
def write (layout : Layout) (x : Float) : String :=
  String.ofList (if isNegative x then '-' :: layout.magnitude x else layout.magnitude x)

/-- Every number positionally; of two equally near decimals the greater one is written. -/
def plain : Layout where
  positional _ := true
  tie := .up

end Layout

/-- The text of any binary64 number without an exponent. -/
def plainText (x : Float) : String :=
  if x.isNaN then "NaN"
  else if x.isInf then if isNegative x then "-inf" else "inf"
  else Layout.plain.write x

end EnvelopeClient.Decimal
