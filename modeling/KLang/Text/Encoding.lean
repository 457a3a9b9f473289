/-!
# The characters of a file

Program files are UTF-8. Line ends may be written as a line feed, as a carriage return, or as both;
all of them become line feeds.

* `decodeUtf8`: the characters of a sequence of bytes, or the fault of the first byte that none can
  continue.
* `unifyNewlines`: the text with uniform line ends.
-/

namespace KLang

/-- Why bytes are not the encoding of a text. -/
inductive DecodeFault where
  | startByte
  | continuationByte
  | unexpectedEnd
  deriving DecidableEq, Repr

/-- The text of a decoding fault. -/
def DecodeFault.message : DecodeFault → String
  | .startByte => "invalid start byte"
  | .continuationByte => "invalid continuation byte"
  | .unexpectedEnd => "unexpected end of data"

namespace Utf8

/-- A character of which `owed` bytes are missing, the next one between `low` and `high`. -/
structure Pending where
  owed : Nat
  low : UInt8
  high : UInt8
  code : Nat
  deriving DecidableEq, Repr

/-- What the first byte of a character of several bytes begins; only shortest forms are valid. -/
def lead? (b : UInt8) : Option Pending :=
  if b < 0xc2 then none
  else if b < 0xe0 then some ⟨1, 0x80, 0xbf, b.toNat - 0xc0⟩
  else if b == 0xe0 then some ⟨2, 0xa0, 0xbf, 0⟩
  else if b == 0xed then some ⟨2, 0x80, 0x9f, 0xd⟩
  else if b < 0xf0 then some ⟨2, 0x80, 0xbf, b.toNat - 0xe0⟩
  else if b == 0xf0 then some ⟨3, 0x90, 0xbf, 0⟩
  else if b < 0xf4 then some ⟨3, 0x80, 0xbf, b.toNat - 0xf0⟩
  else if b == 0xf4 then some ⟨3, 0x80, 0x8f, 4⟩
  else none

/-- The characters of the remaining bytes behind the characters `read`, which are in reverse. -/
def decodeFrom (read : List Char) : Option Pending → List UInt8 → Except DecodeFault (List Char)
  | none, [] => .ok read.reverse
  | some _, [] => .error .unexpectedEnd
  | none, b :: bytes =>
    if b < 0x80 then decodeFrom (Char.ofNat b.toNat :: read) none bytes
    else
      match lead? b with
      | none => .error .startByte
      | some p => decodeFrom read (some p) bytes
  | some p, b :: bytes =>
    if p.low ≤ b ∧ b ≤ p.high then
      let code := p.code * 64 + (b.toNat - 0x80)
      if p.owed ≤ 1 then decodeFrom (Char.ofNat code :: read) none bytes
      else decodeFrom read (some ⟨p.owed - 1, 0x80, 0xbf, code⟩) bytes
    else .error .continuationByte

end Utf8

/-- The characters that bytes encode. -/
def decodeUtf8 (bytes : List UInt8) : Except DecodeFault (List Char) :=
  Utf8.decodeFrom [] none bytes

/-- Every line end as a line feed. -/
def unifyNewlines : List Char → List Char
  | '\r' :: '\n' :: cs => '\n' :: unifyNewlines cs
  | '\r' :: cs => '\n' :: unifyNewlines cs
  | c :: cs => c :: unifyNewlines cs
  | [] => []

end KLang
