import Lisplet.Text.HiddenTable
import Lisplet.Text.Ranges

/-! # Quoted text

Text between double quotes, in which every character can be seen: a character that does not
show, a quote and a backslash are written with a backslash in front. -/

namespace Lisplet.Text

/-- A character by its code point, in hexadecimal. -/
def codePointText (c : Char) : String :=
  "\\u\x7b" ++ String.ofList (Nat.toDigits 16 c.toNat) ++ "\x7d"

/-- A character between quotes. -/
def quotedChar (c : Char) : String :=
  if c = '"' then "\\\""
  else if c = '\\' then "\\\\"
  else if c = '\n' then "\\n"
  else if c = '\r' then "\\r"
  else if c = '\t' then "\\t"
  else if c = '\x00' then "\\0"
  else if inRanges hiddenRanges c then codePointText c
  else c.toString

/-- A text between quotes. -/
def quoted (s : String) : String := "\"" ++ String.join (s.toList.map quotedChar) ++ "\""

end Lisplet.Text
