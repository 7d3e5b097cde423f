import EnvelopeClient.Json.Printer
import EnvelopeClient.Text.Quoted

/-!
# Values of an expected shape

A `Shape` is what a caller wants of a value. `Shape.read` gives the value in that shape, or says
in what it differs: a `Mismatch` of kind, or an integer outside the wanted range. Shapes only
narrow, never convert: a number with a fraction is no integer, whatever its value.
-/

namespace EnvelopeClient.Json

/-- How a value is named in a message about its kind. -/
def Value.kind : Value → String
  | .null => "null"
  | .bool b => s!"boolean `{b}`"
  | .number (.int n) => s!"integer `{n}`"
  | .number (.float x) => s!"floating point `{floatText x}`"
  | .string s => s!"string {Text.quoted s}"
  | .array _ => "sequence"
  | .object _ => "map"

/-- Why a value does not have an expected shape. -/
inductive Mismatch where
  /-- The value is of another kind. -/
  | kind (found : Value) (expected : String)
  /-- The integer is outside the expected range. -/
  | range (found : Int) (expected : String)
  /-- An object lacks a member. -/
  | missing (member : String)
  /-- An array is too short. -/
  | tooShort (length : Nat) (expected : String)
  /-- An array is too long. -/
  | tooLong (length : Nat)

/-- The wording of a mismatch. -/
def Mismatch.message : Mismatch → String
  | .kind found expected => s!"invalid type: {found.kind}, expected {expected}"
  | .range found expected => s!"invalid value: integer `{found}`, expected {expected}"
  | .missing member => s!"missing field `{member}`"
  | .tooShort length expected => s!"invalid length {length}, expected {expected}"
  | .tooLong length => s!"invalid length {length}, expected fewer elements in array"

/-- The string a value is. -/
def Value.asString : Value → Except Mismatch String
  | .string s => .ok s
  | v => .error (.kind v "a string")

/-- The integer a value is, between two bounds; `name` names the range. -/
def Value.asInteger (low high : Int) (name : String) : Value → Except Mismatch Int
  | .number (.int n) => if low ≤ n && n ≤ high then .ok n else .error (.range n name)
  | v => .error (.kind v name)

/-- What a caller may expect a value to be. -/
inductive Shape where
  | string
  | int32
  | int64
  | nat64
  | bool
  | unit
  /-- An array of 64-bit integers. -/
  | int64List
  /-- A string or null. -/
  | optionalString
  deriving DecidableEq, Repr

/-- A 32-bit integer with sign. -/
def Value.asInt32 : Value → Except Mismatch Int :=
  Value.asInteger (-0x80000000) 0x7fffffff "i32"

/-- A 64-bit integer with sign. -/
def Value.asInt64 : Value → Except Mismatch Int :=
  Value.asInteger (-0x8000000000000000) 0x7fffffffffffffff "i64"

/-- A 64-bit integer without sign. -/
def Value.asNat64 : Value → Except Mismatch Int :=
  Value.asInteger 0 0xffffffffffffffff "u64"

/-- The value in the expected shape. -/
def Shape.read (shape : Shape) (v : Value) : Except Mismatch Value :=
  match shape with
  | .string => Value.string <$> v.asString
  | .int32 => Value.int <$> v.asInt32
  | .int64 => Value.int <$> v.asInt64
  | .nat64 => Value.int <$> v.asNat64
  | .bool =>
    match v with
    | .bool b => .ok (.bool b)
    | _ => .error (.kind v "a boolean")
  | .unit =>
    match v with
    | .null => .ok .null
    | _ => .error (.kind v "unit")
  | .int64List =>
    match v with
    | .array items => Value.array <$> items.mapM fun item => Value.int <$> item.asInt64
    | _ => .error (.kind v "a sequence")
  | .optionalString =>
    match v with
    | .null => .ok .null
    | _ => Value.string <$> v.asString

end EnvelopeClient.Json
