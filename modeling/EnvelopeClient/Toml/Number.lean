import EnvelopeClient.Toml.Text

/-!
# Numbers, dates and times

Integers have 64 bits with a sign and may be written in base 2, 8, 10 or 16. Floats are rounded to
the nearest binary64 number; one that is too great is not accepted, one that is too low is negative
infinity. Of dates and times only the form and the ranges matter.
-/

namespace EnvelopeClient.Toml

/-- The number that digits stand for. -/
def ofDigits (base : Nat) (digits : List Char) : Nat :=
  digits.foldl (fun value x => base * value + (hexDigit? x).getD 0) 0

/-- Whether an integer fits 64 bits with a sign. -/
def fitsInteger (n : Int) : Bool := -0x8000000000000000 ≤ n && n < 0x8000000000000000

/-- The binary64 number nearest to `m · 10 ^ e`. Where the number of digits alone puts it far
outside the range, the power of ten is not computed. -/
def nearest (m : Nat) (e : Int) : Float :=
  let leading : Int := (Nat.toDigits 10 m).length + e
  if m = 0 then 0.0
  else if 400 < leading then 1.0 / 0.0
  else if leading < -400 then 0.0
  else Float.ofScientific m (e < 0) e.natAbs

namespace Grammar

/-- A sign; the answer says whether it is a minus. -/
def sign : Grammar Bool :=
  (do char '-'; return true) <|> (do char '+'; return false) <|> pure false

/-- Digits with single underscores between them. -/
def digits (p : Char → Bool) : Grammar (List Char) := do
  let first ← run1 p
  let more ← many (char '_' *> run1 p)
  return first ++ more.flatten

/-- A decimal number without superfluous zeros. -/
def decimal : Grammar (List Char) :=
  (do char '0'; return ['0']) <|> (do
    ahead (satisfy fun x => '1' ≤ x && x ≤ '9')
    digits Char.isDigit)

/-- An integer in some base, behind the letter that names it. -/
def based (letter : Char) (base : Nat) : Grammar Int := do
  char '0'
  char letter
  let found ← digits fun x => (hexDigit? x).any (· < base)
  return ofDigits base found

/-- An integer. -/
def integer : Grammar Int := do
  let n ← based 'x' 16 <|> based 'o' 8 <|> based 'b' 2 <|> (do
    let negative ← sign
    let found ← decimal
    let n : Int := ofDigits 10 found
    return if negative then -n else n)
  require (fitsInteger n)
  return n

/-- The digits behind the point. -/
def fraction : Grammar (List Char) := do
  char '.'
  digits Char.isDigit

/-- The power of ten. -/
def exponent : Grammar Int := do
  let _ ← satisfy fun x => x = 'e' || x = 'E'
  let negative ← sign
  let found ← digits Char.isDigit
  let e : Int := ofDigits 10 found
  return if negative then -e else e

/-- A number with a fraction, an exponent, or both. -/
def finiteFloat : Grammar Float := do
  let negative ← sign
  let whole ← decimal
  let (fraction, e) ←
    (do return ([], ← exponent)) <|>
      (do return (← fraction, (← optional exponent).getD 0))
  let x := nearest (ofDigits 10 (whole ++ fraction)) (e - fraction.length)
  require (negative || x.isFinite)
  return if negative then -x else x

/-- Infinity, or no number. -/
def specialFloat : Grammar Float := do
  let negative ← sign
  let x ← (do literal "inf"; return 1.0 / 0.0) <|> (do literal "nan"; return 0.0 / 0.0)
  return if negative then -x else x

/-- A float. -/
def float : Grammar Float := finiteFloat <|> specialFloat

/-! ## Dates and times -/

/-- So many decimal digits. -/
def fixedDigits : Nat → Nat → Grammar Nat
  | 0, value => pure value
  | count + 1, value => do
    let x ← satisfy Char.isDigit
    fixedDigits count (10 * value + (hexDigit? x).getD 0)

/-- Two digits within a range. -/
def twoDigits (low high : Nat) : Grammar Nat := do
  let value ← fixedDigits 2 0
  require (low ≤ value && value ≤ high)
  return value

/-- The number of days of a month. -/
def daysIn (year month : Nat) : Nat :=
  if month = 2 then
    if year % 4 = 0 && (year % 100 ≠ 0 || year % 400 = 0) then 29 else 28
  else if month = 4 || month = 6 || month = 9 || month = 11 then 30
  else 31

/-- A date. -/
def date : Grammar Unit := do
  let year ← fixedDigits 4 0
  char '-'
  let month ← twoDigits 1 12
  char '-'
  let day ← twoDigits 1 31
  require (day ≤ daysIn year month)

/-- Hours and minutes. -/
def hourMinute : Grammar Unit := do
  let _ ← twoDigits 0 23
  char ':'
  let _ ← twoDigits 0 59

/-- A time of day. A minute may have a sixty-first second. -/
def time : Grammar Unit := do
  hourMinute
  char ':'
  let _ ← twoDigits 0 60
  let _ ← optional (char '.' *> run1 Char.isDigit)

/-- The distance of a time zone. -/
def zone : Grammar Unit :=
  (do let _ ← satisfy fun x => x = 'Z' || x = 'z') <|>
    (do
      let _ ← satisfy fun x => x = '+' || x = '-'
      hourMinute)

/-- A date, a date with a time, or a time. -/
def datetime : Grammar Unit :=
  (do
    date
    let _ ← optional (do
      let _ ← satisfy fun x => x = 'T' || x = 't' || x = ' '
      time
      optional zone)) <|> time

end Grammar

end EnvelopeClient.Toml
