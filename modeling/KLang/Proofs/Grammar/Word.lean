import KLang.Token.Lexer

/-!
# The grammar of words

Which characters spell which word, and what may stand around words, said without the lexer.

* `IsDecimal`: decimal literals.
* `Spells`: the characters of a word, or of a hexadecimal literal that is too large for a number.
* `IsGap`: blanks and comments.
* `IsLayout`: a text that is nothing but words with gaps around them.
-/

namespace KLang

/-! ## Decimal literals -/

/-- One or more decimal digits. -/
def IsDigits (ds : List Char) : Prop := ds ≠ [] ∧ ∀ d ∈ ds, d.isDigit = true

/-- Digits, digits with a point behind or among them, or a point and digits. -/
inductive IsMantissa : List Char → Prop
  | whole {ds : List Char} (h : IsDigits ds) : IsMantissa ds
  | pointed {ds fs : List Char} (h : IsDigits ds) (hf : ∀ d ∈ fs, d.isDigit = true) :
      IsMantissa (ds ++ '.' :: fs)
  | fraction {fs : List Char} (h : IsDigits fs) : IsMantissa ('.' :: fs)

/-- Nothing, or an `e` with an optional sign and digits behind it. -/
inductive IsExponent : List Char → Prop
  | absent : IsExponent []
  | given {mark : Char} {sign ds : List Char} (hmark : mark = 'e' ∨ mark = 'E')
      (hsign : sign = [] ∨ sign = ['+'] ∨ sign = ['-']) (h : IsDigits ds) :
      IsExponent (mark :: (sign ++ ds))

/-- A decimal literal is a mantissa and perhaps an exponent. -/
inductive IsDecimal : List Char → Prop
  | mk {m x : List Char} (hmantissa : IsMantissa m) (hexponent : IsExponent x) : IsDecimal (m ++ x)

/-! ## Words -/

/-- The first natural number that rounds beyond the largest number, in the middle between that
number and the next power of two. -/
def Numeral.bound : Nat := (2 ^ (54 : Nat) - 1) * 2 ^ (970 : Nat)

/-- The digits behind the `0x` of a hexadecimal literal. -/
def IsHexDigits (ds : List Char) : Prop :=
  ds ≠ [] ∧ ∀ d ∈ ds, (Numeral.hexDigit? d).isSome = true

/-- What a hexadecimal literal with these digits is. -/
def Lexeme.ofHex (ds : List Char) : Except LexFault Lexeme :=
  if Numeral.hex ds < Numeral.bound then
    .ok (.number (String.ofList ('0' :: 'x' :: ds)) (.ofNat (Numeral.hex ds)))
  else .error .numberTooLarge

/-- The characters spell a word, or a hexadecimal literal that is too large for a number. -/
inductive Spells : List Char → Except LexFault Lexeme → Prop
  | keyword (k : Keyword) : Spells k.text.toList (.ok (.keyword k))
  | identifier {c : Char} {cs : List Char} (hc : isLetter c = true)
      (hcs : ∀ d ∈ cs, isWordChar d = true) (hk : ∀ k : Keyword, k.text ≠ String.ofList (c :: cs)) :
      Spells (c :: cs) (.ok (.identifier (String.ofList (c :: cs))))
  | hexadecimal {ds : List Char} (h : IsHexDigits ds) : Spells ('0' :: 'x' :: ds) (Lexeme.ofHex ds)
  | decimal {u : List Char} (h : IsDecimal u) :
      Spells u (.ok (.number (String.ofList u) (.ofDecimal false (Numeral.decimal u))))
  | string {cs : List Char} (h : '"' ∉ cs) :
      Spells ('"' :: (cs ++ ['"'])) (.ok (.string (String.ofList cs)))
  | symbol (s : Symbol) : Spells s.chars (.ok (.symbol s))

/-- `u` is the longest word that is spelled at the front of the text, and `v` remains behind it. -/
structure IsLongestWord (text u v : List Char) (r : Except LexFault Lexeme) : Prop where
  split : text = u ++ v
  spells : Spells u r
  longest (u' : List Char) (r' : Except LexFault Lexeme) :
    u' <+: text → Spells u' r' → u'.length ≤ u.length

/-! ## Between words -/

/-- The characters are blanks and comments in front of `rest`. A comment goes up to its line end; one
without a line end goes up to the end of the text. -/
inductive IsGap : List Char → List Char → Prop
  | nil (rest : List Char) : IsGap [] rest
  | blank {c : Char} {cs rest : List Char} (h : isBlank c = true) (more : IsGap cs rest) :
      IsGap (c :: cs) rest
  | comment {body cs rest : List Char} (h : '\n' ∉ body) (more : IsGap cs rest) :
      IsGap ('#' :: (body ++ '\n' :: cs)) rest
  | lastComment {body : List Char} (h : '\n' ∉ body) : IsGap ('#' :: body) []

/-- The gap is the longest one at the front of the text, and `rest` remains behind it. -/
structure IsLongestGap (text gap rest : List Char) : Prop where
  split : text = gap ++ rest
  isGap : IsGap gap rest
  longest (gap' rest' : List Char) : text = gap' ++ rest' → IsGap gap' rest' →
    gap'.length ≤ gap.length

/-- A text that is nothing but the given words, spelled out in their order, with gaps around them. -/
inductive IsLayout : List Char → List Lexeme → Prop
  | nil {gap : List Char} (h : IsGap gap []) : IsLayout gap []
  | cons {gap u rest : List Char} {l : Lexeme} {ls : List Lexeme} (h : IsGap gap (u ++ rest))
      (hu : Spells u (.ok l)) (more : IsLayout rest ls) : IsLayout (gap ++ (u ++ rest)) (l :: ls)

end KLang
