import KLang.Number.Basic

/-!
# Rounding to the format

Every inexact operation on numbers ends here: the exact result, a quotient of integers or a scaled
integer, is rounded to the nearest number, and an exact tie goes to the even significand.

* `nearest num den`: the integer nearest to `num / den`, ties to even.
* `Number.ofRatio`, `Number.ofScaled`: the number nearest to `num / den` and to `m * 2 ^ e`.
-/

namespace KLang

/-- The integer nearest to `num / den`; a half goes to the even neighbour. -/
def nearest (num den : Nat) : Nat :=
  let q := num / den
  let r := num % den
  if 2 * r < den then q else if den < 2 * r then q + 1 else q + q % 2

/-- `⌊log₂ (num / den)⌋` for positive `num` and `den`. -/
def binade (num den : Nat) : Int :=
  let d : Int := (num.log2 : Int) - den.log2
  if den <<< d.toNat ≤ num <<< (-d).toNat then d else d - 1

/-- The exponent of the last place of a magnitude in the binade `b`. -/
def unitExponent (b : Int) : Int := max (b - 52) (-1074)

namespace Number

/-- The number with significand `m` at exponent `e`, where rounding up may have made a carry. -/
def settle (negative : Bool) (m : Nat) (e : Int) : Number :=
  if m = 2 ^ (53 : Nat) then pack negative (2 ^ (52 : Nat)) (e + 1) else pack negative m e

/-- The number nearest to `num / den`; a zero divisor is not a quotient and gives a zero. -/
def ofRatio (negative : Bool) (num den : Nat) : Number :=
  if num = 0 ∨ den = 0 then zero negative
  else
    let e := unitExponent (binade num den)
    settle negative (nearest (num <<< (-e).toNat) (den <<< e.toNat)) e

/-- The number nearest to `m * 2 ^ e`. -/
def ofScaled (negative : Bool) (m : Nat) (e : Int) : Number :=
  if m = 0 then zero negative
  else
    let u := unitExponent (m.log2 + e)
    settle negative (nearest (m <<< (e - u).toNat) (1 <<< (u - e).toNat)) u

/-- The number nearest to an integer. -/
def ofInt (i : Int) : Number := ofScaled (i < 0) i.natAbs 0

/-- The number nearest to a natural number. -/
def ofNat (n : Nat) : Number := ofScaled false n 0

instance (n : Nat) : OfNat Number n := ⟨ofNat n⟩

/-- `1` for true and `0` for false. -/
def ofBool (b : Bool) : Number := if b then 1 else 0

end Number

end KLang
