import Breadboard.Text.Shape

/-!
# Quoted texts

A text is quoted for a message, between quotes, so that it stays on its line and each character of
it can be told: what has no shape of its own is shown by its number.
-/

namespace Breadboard.Text

/-- A character of a quoted text. -/
def quotedChar (c : Char) : String :=
  if c = '"' then "\\\""
  else if c = '\\' then "\\\\"
  else if c = '\x00' then "\\0"
  else if c = '\n' then "\\n"
  else if c = '\r' then "\\r"
  else if c = '\t' then "\\t"
  else if isShown c then c.toString
  else "\\u\x7b" ++ String.ofList (Nat.toDigits 16 c.toNat) ++ "\x7d"

/-- A text between quotes. -/
def quoted (s : String) : String := "\"" ++ String.join (s.toList.map quotedChar) ++ "\""

end Breadboard.Text
