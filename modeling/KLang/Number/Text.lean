import KLang.Number.Decimal

/-!
# Number text

Numbers are written with the fewest digits that read back, in plain notation while the place of the
first digit lies between `10 ^ (-4)` and `10 ^ 15`, and with an exponent outside of that range.

* `Layout`: where plain notation ends and how an exponent is written; `Layout.plain` is the one used
  for numbers.
* `Number.text`: the text of a number.
* `Numeral.decimal`: the decimal that a literal stands for; `Numeral.hex` is its hexadecimal
  partner.
* `Number.ofText?`: reads a signed decimal literal, an infinity or `nan`.
-/

namespace KLang

/-- The choices in writing a decimal. -/
structure Layout where
  /-- The lowest place of the first digit that is written in plain notation. -/
  lowest : Int
  /-- The highest place of the first digit that is written in plain notation. -/
  highest : Int
  /-- The least number of digits of an exponent; its sign is always written. -/
  exponentWidth : Nat

/-- Plain notation from `0.0001` up to sixteen places before the point; two-digit exponents. -/
def Layout.standard : Layout := ⟨-4, 15, 2⟩

/-- The decimal digits of a natural number. -/
def digitChars (n : Nat) : List Char := Nat.toDigits 10 n

/-- `n` zeros. -/
def zeros (n : Nat) : List Char := List.replicate n '0'

namespace Decimal

/-- The place of the first digit. -/
def lead (d : Decimal) : Int := d.exponent + ((digitChars d.digits).length - 1 : Nat)

/-- Digits with a point among them, and zeros to fill. -/
def plain (d : Decimal) : List Char :=
  let ds := digitChars d.digits
  let point := d.exponent + ds.length
  if 0 ≤ d.exponent then ds ++ zeros d.exponent.toNat
  else if point ≤ 0 then '0' :: '.' :: zeros (-point).toNat ++ ds
  else ds.take point.toNat ++ '.' :: ds.drop point.toNat

/-- One digit before the point, and the place of that digit as the exponent. -/
def scientific (width : Nat) (d : Decimal) : List Char :=
  let mantissa :=
    match digitChars d.digits with
    | c :: c' :: cs => c :: '.' :: c' :: cs
    | cs => cs
  let place := digitChars d.lead.natAbs
  mantissa ++ 'e' :: (if d.lead < 0 then '-' else '+') :: zeros (width - place.length) ++ place

/-- A decimal in the given layout. -/
def write (layout : Layout) (d : Decimal) : List Char :=
  if layout.lowest ≤ d.lead ∧ d.lead ≤ layout.highest then d.plain
  else d.scientific layout.exponentWidth

end Decimal

namespace Number

/-- The characters of a number. -/
def chars (x : Number) : List Char :=
  match x with
  | .nan => ['n', 'a', 'n']
  | .infinite s => (if s then ['-'] else []) ++ ['i', 'n', 'f']
  | .finite s .. => (if s then ['-'] else []) ++ x.shortest.write .standard

/-- The text of a number. -/
def text (x : Number) : String := String.ofList x.chars

instance : ToString Number := ⟨text⟩

end Number

/-! ## Reading literals -/

namespace Numeral

/-- The natural number with the given decimal digits. -/
def ofDigits (ds : List Char) : Nat := Nat.ofDigitChars 10 ds 0

/-- The exponent after the letter of a literal, an optional sign and digits. -/
def exponent : List Char → Int
  | '-' :: ds => -(ofDigits ds : Int)
  | '+' :: ds => ofDigits ds
  | ds => ofDigits ds

/-- Whether a character begins the exponent of a decimal literal. -/
def isExponentMark (c : Char) : Bool := c == 'e' || c == 'E'

/-- The decimal that a literal of digits, point and exponent stands for. -/
def decimal (text : List Char) : Decimal :=
  let mantissa := text.takeWhile (!isExponentMark ·)
  let tail := text.dropWhile (!isExponentMark ·)
  let whole := mantissa.takeWhile (· != '.')
  let fraction := (mantissa.dropWhile (· != '.')).drop 1
  ⟨ofDigits (whole ++ fraction), exponent (tail.drop 1) - fraction.length⟩

/-- The value of a hexadecimal digit. -/
def hexDigit? (c : Char) : Option Nat :=
  if c.isDigit then some (c.toNat - '0'.toNat)
  else if 'a' ≤ c ∧ c ≤ 'f' then some (c.toNat - 'a'.toNat + 10)
  else if 'A' ≤ c ∧ c ≤ 'F' then some (c.toNat - 'A'.toNat + 10)
  else none

/-- The natural number with the given hexadecimal digits. -/
def hex (ds : List Char) : Nat := ds.foldl (fun n c => 16 * n + (hexDigit? c).getD 0) 0

/-- The sign at the front of `cs`, if there is one, and what follows it. -/
def signSpan : List Char → List Char × List Char
  | '+' :: cs => (['+'], cs)
  | '-' :: cs => (['-'], cs)
  | cs => ([], cs)

/-- The exponent part at the front of `cs` and what follows it, if there is one. -/
def exponentSpan? : List Char → Option (List Char × List Char)
  | mark :: cs =>
    let (sign, ds) := signSpan cs
    if isExponentMark mark ∧ ds.takeWhile Char.isDigit ≠ [] then
      some (mark :: sign ++ ds.takeWhile Char.isDigit, ds.dropWhile Char.isDigit)
    else none
  | [] => none

/-- A mantissa with the exponent part that follows it, if there is one. -/
def withExponent (mantissa rest : List Char) : List Char × List Char :=
  match exponentSpan? rest with
  | some (part, rest) => (mantissa ++ part, rest)
  | none => (mantissa, rest)

/-- The point and digits at the front of `cs`, if there are any, and what follows them. -/
def fractionSpan : List Char → List Char × List Char
  | '.' :: cs => ('.' :: cs.takeWhile Char.isDigit, cs.dropWhile Char.isDigit)
  | cs => ([], cs)

/--
The longest decimal literal at the front of `cs` and what follows it: digits with an optional point
among them or at either end, at least one digit in all, and then an optional exponent.
-/
def decimalSpan? (cs : List Char) : Option (List Char × List Char) :=
  let whole := cs.takeWhile Char.isDigit
  let (fraction, rest) := fractionSpan (cs.dropWhile Char.isDigit)
  if whole = [] ∧ fraction.length ≤ 1 then none else some (withExponent (whole ++ fraction) rest)

end Numeral

namespace Number

/-- The spellings of infinity in lower-case letters. -/
def infinitySpellings : List (List Char) :=
  [['i', 'n', 'f'], ['i', 'n', 'f', 'i', 'n', 'i', 't', 'y']]

/-- Reads an unsigned number: a decimal literal, or infinity or `nan` in letters of either case. -/
def ofUnsigned? (negative : Bool) (cs : List Char) : Option Number :=
  if cs.map Char.toLower ∈ infinitySpellings then some (.infinite negative)
  else if cs.map Char.toLower = ['n', 'a', 'n'] then some .nan
  else
    match Numeral.decimalSpan? cs with
    | some (literal, []) => some (ofDecimal negative (Numeral.decimal literal))
    | _ => none

/-- Reads a number with an optional sign. -/
def ofChars? : List Char → Option Number
  | '-' :: cs => ofUnsigned? true cs
  | '+' :: cs => ofUnsigned? false cs
  | cs => ofUnsigned? false cs

/-- Reads a number with an optional sign. -/
def ofText? (s : String) : Option Number := ofChars? s.toList

end Number

end KLang
