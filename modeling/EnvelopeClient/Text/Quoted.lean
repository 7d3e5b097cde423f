import EnvelopeClient.Text.Visible

/-!
# Quoted text

How a text is shown inside a message: between double quotes, on one line, with every character
that could mislead the reader written as an escape. Characters that are not visible appear as
their code point, `\u{301}`.
-/

namespace EnvelopeClient.Text

/-- The digits of a number in base sixteen, lower case and without padding. -/
def hex (n : Nat) : String :=
  String.ofList (Nat.toDigits 16 n)

/-- One character as it stands between the quotes. -/
def quotedChar (c : Char) : String :=
  if c = '\x00' then "\\0"
  else if c = '\t' then "\\t"
  else if c = '\r' then "\\r"
  else if c = '\n' then "\\n"
  else if c = '"' then "\\\""
  else if c = '\\' then "\\\\"
  else if isVisible c then c.toString
  else "\\u\x7b" ++ hex c.toNat ++ "\x7d"

/-- A text between double quotes. -/
def quoted (s : String) : String :=
  s.toList.foldl (fun out c => out ++ quotedChar c) "\"" ++ "\""

end EnvelopeClient.Text
