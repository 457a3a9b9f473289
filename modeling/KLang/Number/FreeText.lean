import KLang.Number.Text
import KLang.Text.Blank
import KLang.Text.Digit

/-!
# Numbers in free text

Text from outside may hold a number in a wider form than programs do: with blanks at both ends, with
digits of any script, and with an underscore between two digits.

* `plainChars`: the text with ASCII digits and without the blanks at its ends.
* `ungroup?`: the text without its underscores.
* `integerOf`, `Number.ofFreeText?`: the number of a text.
-/

namespace KLang

/-- A character with a digit of any script as an ASCII digit, and with any blank as a space. -/
def plainChar (c : Char) : Char :=
  if isWideBlank c then ' '
  else
    match scriptDigit? c with
    | some d => d.digitChar
    | none => c

/-- The plain characters of a text without the blanks at both ends. -/
def plainChars (s : String) : List Char :=
  let cs := (s.toList.map plainChar).dropWhile isBlank
  (cs.reverse.dropWhile isBlank).reverse

/--
The characters without underscores, each of which must stand between two digits; `digitBefore` says
whether a digit stands in front of the first.
-/
def ungroupFrom? (digitBefore : Bool) : List Char → Option (List Char)
  | [] => some []
  | '_' :: c :: cs =>
    if digitBefore && c.isDigit then (c :: ·) <$> ungroupFrom? true cs else none
  | c :: cs => if c == '_' then none else (c :: ·) <$> ungroupFrom? c.isDigit cs

/-- The characters without underscores, each of which must stand between two digits. -/
def ungroup? (cs : List Char) : Option (List Char) := ungroupFrom? false cs

/-- Why a text is not read as an integer. -/
inductive IntegerFault where
  | malformed
  | tooLong (digits : Nat)
  deriving DecidableEq, Repr

/-- The greatest number of digits in an integer that is read. -/
def digitLimit : Nat := 4300

/--
The integer of a text: digits with an optional sign. Too many digits are noticed before anything
that is wrong behind them.
-/
def integerOf (s : String) : Except IntegerFault Int :=
  let (sign, body) := Numeral.signSpan (plainChars s)
  let inGroup (c : Char) : Bool := c.isDigit || c == '_'
  match ungroup? (body.takeWhile inGroup) with
  | none | some [] => .error .malformed
  | some ds =>
    if digitLimit < ds.length then .error (.tooLong ds.length)
    else if body.dropWhile inGroup = [] then .ok (signed (sign == ['-']) (Numeral.ofDigits ds))
    else .error .malformed

/-- The number of a text. -/
def Number.ofFreeText? (s : String) : Option Number :=
  (ungroup? (plainChars s)).bind ofChars?

end KLang
