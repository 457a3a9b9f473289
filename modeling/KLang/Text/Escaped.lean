import KLang.Text.Printable

/-!
# Escaped text

Text between quotes in which every character can be seen: a character that cannot is written as a
backslash and a letter or its code.

* `escaped`: text between quotes.
* `hexText`: a code in hexadecimal.
-/

namespace KLang

/-- At least `width` lower-case hexadecimal digits. -/
def hexText (width n : Nat) : String :=
  let ds := Nat.toDigits 16 n
  String.ofList (List.replicate (width - ds.length) '0' ++ ds)

/-- The escape for a code, with as few digits as its size allows: two, four or eight. -/
def escapedCode (n : Nat) : String :=
  if n < 0x100 then "\\x" ++ hexText 2 n
  else if n < 0x10000 then "\\u" ++ hexText 4 n
  else "\\U" ++ hexText 8 n

/-- A character between the given quotes. -/
def escapedChar (quote c : Char) : String :=
  if c == quote || c == '\\' then String.ofList ['\\', c]
  else if c == '\n' then "\\n"
  else if c == '\r' then "\\r"
  else if c == '\t' then "\\t"
  else if isPrintable c then c.toString
  else escapedCode c.toNat

/-- Text between single quotes, or between double quotes if it has only single ones itself. -/
def escaped (text : String) : String :=
  let quote := if text.contains '\'' && !text.contains '"' then '"' else '\''
  quote.toString ++ String.join (text.toList.map (escapedChar quote)) ++ quote.toString

end KLang
