import EnvelopeClient.Decimal.Layout
import EnvelopeClient.Json.Value
import EnvelopeClient.Text.Utf8

/-!
# Compact JSON text

`Value.compact` writes a value without any blank. It appends to one growing text, so that an array
of any length is written in constant stack; `Value.chars` is the same text as a plain recursion,
and `pushValue_eq` says that the two agree.

Strings are written raw except for the quotation mark, the backslash and the control characters.
-/

namespace EnvelopeClient.Json

/-- Numbers are positional while the leading digit is between `10 ^ -5` and `10 ^ 15`; of two
equally near decimals the even one is written. -/
def floatLayout : Decimal.Layout where
  positional e := -5 ≤ e && e ≤ 15
  tie := .toEven

/-- The text of a finite binary64 number. -/
def floatText (x : Float) : String :=
  floatLayout.write x

/-- The text of an integer. -/
def intText (n : Int) : List Char :=
  match n with
  | .ofNat k => Nat.toDigits 10 k
  | .negSucc k => '-' :: Nat.toDigits 10 (k + 1)

/-- The text of a number. -/
def Number.text : Number → List Char
  | .int n => intText n
  | .float x => (floatText x).toList

/-- A control character without a short escape, as four hexadecimal digits. -/
def unitEscape (c : Char) : List Char :=
  '\\' :: 'u' :: '0' :: '0' :: Nat.digitChar (c.toNat / 16) :: Nat.digitChar (c.toNat % 16) :: []

/-- One character of a string. -/
def escapeChar (c : Char) : List Char :=
  if c = '"' then ['\\', '"']
  else if c = '\\' then ['\\', '\\']
  else if c = '\n' then ['\\', 'n']
  else if c = '\r' then ['\\', 'r']
  else if c = '\t' then ['\\', 't']
  else if c = '\x08' then ['\\', 'b']
  else if c = '\x0c' then ['\\', 'f']
  else if c.toNat < 0x20 then unitEscape c
  else [c]

/-- A string between quotation marks. -/
def stringText (s : String) : List Char :=
  '"' :: (s.toList.flatMap escapeChar ++ ['"'])

mutual

/-- The compact text of a value. -/
def Value.chars : Value → List Char
  | .null => "null".toList
  | .bool true => "true".toList
  | .bool false => "false".toList
  | .number n => n.text
  | .string s => stringText s
  | .array items => '[' :: (itemChars items ++ [']'])
  | .object members => '{' :: (memberChars members ++ ['}'])

/-- The items of an array, with commas between them. -/
def itemChars : List Value → List Char
  | [] => []
  | [v] => v.chars
  | v :: rest => v.chars ++ ',' :: itemChars rest

/-- The members of an object, with commas between them. -/
def memberChars : List (String × Value) → List Char
  | [] => []
  | [(k, v)] => stringText k ++ ':' :: v.chars
  | (k, v) :: rest => stringText k ++ ':' :: (v.chars ++ ',' :: memberChars rest)

end

/-- Appends characters to a text. -/
def pushChars (out : String) (cs : List Char) : String :=
  cs.foldl String.push out

/-- Appends a string between quotation marks. -/
def pushString (out : String) (s : String) : String :=
  (s.toList.foldl (fun out c => pushChars out (escapeChar c)) (out.push '"')).push '"'

mutual

/-- Appends the compact text of a value. -/
def pushValue (out : String) : Value → String
  | .null => pushChars out "null".toList
  | .bool true => pushChars out "true".toList
  | .bool false => pushChars out "false".toList
  | .number n => pushChars out n.text
  | .string s => pushString out s
  | .array items => (pushItems (out.push '[') items).push ']'
  | .object members => (pushMembers (out.push '{') members).push '}'

/-- Appends the items of an array. -/
def pushItems (out : String) : List Value → String
  | [] => out
  | [v] => pushValue out v
  | v :: rest => pushItems ((pushValue out v).push ',') rest

/-- Appends the members of an object. -/
def pushMembers (out : String) : List (String × Value) → String
  | [] => out
  | [(k, v)] => pushValue ((pushString out k).push ':') v
  | (k, v) :: rest => pushMembers ((pushValue ((pushString out k).push ':') v).push ',') rest

end

/-- The compact text of a value. -/
def Value.compact (v : Value) : String :=
  pushValue "" v

/-! ## The two printers agree -/

theorem toList_pushChars (out : String) (cs : List Char) :
    (pushChars out cs).toList = out.toList ++ cs := by
  induction cs generalizing out with
  | nil => simp [pushChars]
  | cons c rest ih =>
    have := ih (out.push c)
    simp_all [pushChars]

theorem toList_foldl_escape (cs : List Char) (out : String) :
    (cs.foldl (fun out c => pushChars out (escapeChar c)) out).toList =
      out.toList ++ cs.flatMap escapeChar := by
  induction cs generalizing out with
  | nil => simp
  | cons c rest ih => simp [ih, toList_pushChars]

theorem toList_pushString (out s : String) :
    (pushString out s).toList = out.toList ++ stringText s := by
  simp [pushString, stringText, toList_foldl_escape]

mutual

/-- Appending a value's text is appending its characters. -/
theorem pushValue_eq (out : String) (v : Value) :
    (pushValue out v).toList = out.toList ++ v.chars := by
  match v with
  | .null => simp [pushValue, Value.chars, toList_pushChars]
  | .bool true => simp [pushValue, Value.chars, toList_pushChars]
  | .bool false => simp [pushValue, Value.chars, toList_pushChars]
  | .number n => simp [pushValue, Value.chars, toList_pushChars]
  | .string s => simp [pushValue, Value.chars, toList_pushString]
  | .array items => simp [pushValue, Value.chars, pushItems_eq _ items]
  | .object members => simp [pushValue, Value.chars, pushMembers_eq _ members]

theorem pushItems_eq (out : String) (items : List Value) :
    (pushItems out items).toList = out.toList ++ itemChars items := by
  match items with
  | [] => simp [pushItems, itemChars]
  | [v] => simp [pushItems, itemChars, pushValue_eq _ v]
  | v :: w :: rest =>
    simp [pushItems, itemChars, pushItems_eq _ (w :: rest), pushValue_eq _ v]

theorem pushMembers_eq (out : String) (members : List (String × Value)) :
    (pushMembers out members).toList = out.toList ++ memberChars members := by
  match members with
  | [] => simp [pushMembers, memberChars]
  | [(k, v)] => simp [pushMembers, memberChars, pushValue_eq _ v, toList_pushString]
  | (k, v) :: w :: rest =>
    simp [pushMembers, memberChars, pushMembers_eq _ (w :: rest), pushValue_eq _ v,
      toList_pushString]

end

theorem toList_compact (v : Value) : v.compact.toList = v.chars := by
  simp [Value.compact, pushValue_eq]

end EnvelopeClient.Json
