import KLang.Number.Rounding

/-!
# Bitwise operations

Bitwise operations act on the 64-bit two's-complement words of the operands' integer parts, and the
result is the number nearest to the signed value of the word.
-/

namespace KLang

/-- An integer wrapped into the signed 64-bit range. -/
def wrap64 (i : Int) : Int := i.bmod (2 ^ (64 : Nat))

namespace Number

/-- The integer part of a number wrapped into the signed 64-bit range. -/
def toInt64? (x : Number) : Except NoIntegerPart Int := wrap64 <$> x.toInt?

/-- The 64-bit word of a finite number's integer part. -/
def word (x : Number) : BitVec 64 := BitVec.ofInt 64 x.truncate

/-- The number nearest to the signed value of a word. -/
def ofWord (w : BitVec 64) : Number := ofInt w.toInt

/-- Bits set in both words. -/
def bitAnd (x y : Number) : Number := ofWord (x.word &&& y.word)

/-- Bits set in either word. -/
def bitOr (x y : Number) : Number := ofWord (x.word ||| y.word)

/-- Bits set in exactly one of the words. -/
def bitXor (x y : Number) : Number := ofWord (x.word ^^^ y.word)

end Number

end KLang
