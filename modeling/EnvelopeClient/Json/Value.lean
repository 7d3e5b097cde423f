/-!
# JSON values

A number is an integer where its text is one and it fits 64 bits, and a binary64 number otherwise;
the two kinds never compare equal. An object is a list of members that every operation keeps in
strictly ascending order of their keys, so equal objects are equal lists and a repeated key keeps
its last value.
-/

namespace EnvelopeClient.Json

/-- A JSON number. -/
inductive Number where
  /-- An integer between `-2 ^ 63` and `2 ^ 64 - 1`. -/
  | int (n : Int)
  /-- Any other number. -/
  | float (x : Float)

/-- A JSON value. -/
inductive Value where
  | null
  | bool (b : Bool)
  | number (n : Number)
  | string (s : String)
  | array (items : List Value)
  | object (members : List (String × Value))

instance : Inhabited Value := ⟨.null⟩

/-- The members of an object, in ascending order of their keys. -/
abbrev Members := List (String × Value)

/-- Whether an integer is one that JSON text keeps exact. -/
def fitsInteger (n : Int) : Bool :=
  -0x8000000000000000 ≤ n && n < 0x10000000000000000

/-- Sets a member, in its place in the order; an earlier value of the key is replaced. -/
def Members.insert (key : String) (value : Value) : Members → Members
  | [] => [(key, value)]
  | (k, v) :: rest =>
    if key < k then (key, value) :: (k, v) :: rest
    else if key = k then (key, value) :: rest
    else (k, v) :: Members.insert key value rest

/-- The value of a member. -/
def Members.get? (members : Members) (key : String) : Option Value :=
  (members.find? (·.1 = key)).map (·.2)

/-- Builds the members from any list of pairs, the last of equal keys winning. -/
def Members.ofList (pairs : List (String × Value)) : Members :=
  pairs.foldl (fun members (key, value) => Members.insert key value members) []

namespace Value

/-- An integer value. -/
def int (n : Int) : Value := .number (.int n)

mutual

/-- Whether a value is one the reader can produce: integers in range and members in strictly
ascending order, all the way down. -/
def Canonical : Value → Prop
  | .null | .bool _ | .string _ => True
  | .number (.int n) => fitsInteger n
  | .number (.float _) => True
  | .array items => CanonicalItems items
  | .object members => CanonicalMembers members ∧ (members.map (·.1)).Pairwise (· < ·)

/-- `Canonical` for every item of an array. -/
def CanonicalItems : List Value → Prop
  | [] => True
  | v :: rest => v.Canonical ∧ CanonicalItems rest

/-- `Canonical` for the value of every member. -/
def CanonicalMembers : List (String × Value) → Prop
  | [] => True
  | (_, v) :: rest => v.Canonical ∧ CanonicalMembers rest

end

end Value

end EnvelopeClient.Json
