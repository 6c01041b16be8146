import JavaFold.Text.Extending
import JavaFold.Text.Unprintable

/-!
# Quoted characters and texts

A message that shows a character or a text quotes it: tab, carriage return, line feed, the null
character, the backslash and the enclosing quote are written with a backslash, and a character that
would not be visible on its own is written by its number.
-/

namespace JavaFold.Text

/-- The number of a character, in lower-case hexadecimal digits without leading zeros. -/
def numberEscape (c : Char) : String :=
  "\\u\x7b" ++ String.ofList (Nat.toDigits 16 c.toNat) ++ "\x7d"

/-- A character as it stands between two quotes. -/
def quotedChar (quote c : Char) : String :=
  if c = '\x00' then "\\0"
  else if c = '\t' then "\\t"
  else if c = '\r' then "\\r"
  else if c = '\n' then "\\n"
  else if c = '\\' || c = quote then String.ofList ['\\', c]
  else if isExtending c || isUnprintable c then numberEscape c
  else String.singleton c

/-- A character between single quotes. -/
def quoteChar (c : Char) : String :=
  "'" ++ quotedChar '\'' c ++ "'"

/-- A text between double quotes. -/
def quoteText (text : String) : String :=
  "\"" ++ String.join (text.toList.map (quotedChar '"')) ++ "\""

end JavaFold.Text
