import KLang.Number.Rounding

/-!
# Decimals

A decimal is a natural number of units of a power of ten.

* `Number.ofDecimal`: the number nearest to a decimal.
* `Number.shortest`: the decimal with the fewest digits that reads back to a given number; of two
  such the nearer one, and on a tie the one with the even last digit.
-/

namespace KLang

/-- The magnitude `digits * 10 ^ exponent`. -/
structure Decimal where
  digits : Nat
  exponent : Int
  deriving DecidableEq, Repr, Inhabited

namespace Decimal

/-- The same magnitude without trailing zeros among its digits. -/
def strip (d : Decimal) : Decimal :=
  if h : d.digits ≠ 0 ∧ d.digits % 10 = 0 then strip ⟨d.digits / 10, d.exponent + 1⟩ else d
termination_by d.digits
decreasing_by omega

/-- The exact decimal form of `m * 2 ^ e`. -/
def ofScaled (m : Nat) (e : Int) : Decimal :=
  ⟨(m <<< e.toNat) * 5 ^ (-e).toNat, min e 0⟩

end Decimal

/-- `⌊log₁₀ (num / den)⌋` for positive `num` and `den`, from the binade and one correction. -/
def leadingPlace (num den : Nat) : Int :=
  let k := binade num den * 30103 / 100000
  if den * 10 ^ (k + 1).toNat ≤ num * 10 ^ (-(k + 1)).toNat then k + 1 else k

namespace Number

/--
The number nearest to a decimal. Magnitudes of at least `8 ^ 342` overflow and those below
`2 ^ (-1075)` vanish, so powers of ten far outside the format are never computed.
-/
def ofDecimal (negative : Bool) (d : Decimal) : Number :=
  if d.digits = 0 then zero negative
  else if 1024 < 3 * d.exponent then .infinite negative
  else if d.digits.log2 + 3 * d.exponent < -1075 then zero negative
  else ofRatio negative (d.digits * 10 ^ d.exponent.toNat) (10 ^ (-d.exponent).toNat)

/-- `d` without trailing zeros, if it reads back to `x`. -/
def readsBack (x : Number) (d : Decimal) : Option Decimal :=
  if ofDecimal false d.strip = x then some d.strip else none

/--
Of the two neighbours of `num / den` on the grid `10 ^ g`, one that reads back to `x`. If both do it
is the nearer one, and in the middle the even one.
-/
def onGrid (x : Number) (num den : Nat) (g : Int) : Option Decimal :=
  let a := num * 10 ^ (-g).toNat
  let b := den * 10 ^ g.toNat
  match x.readsBack ⟨a / b, g⟩, x.readsBack ⟨a / b + 1, g⟩ with
  | some d, some u => some (if nearest a b = a / b then d else u)
  | some d, none => some d
  | none, u => u

/--
The decimal of a magnitude `m * 2 ^ e` with the fewest digits that reads back to it. Seventeen
digits are always enough; the exact decimal form closes the definition without that fact.
-/
def shortestOf (m : Nat) (e : Int) : Decimal :=
  let num := m <<< e.toNat
  let den := 1 <<< (-e).toNat
  let lead := leadingPlace num den
  let found := (List.range 17).findSome? fun (n : Nat) => onGrid (pack false m e) num den (lead - n)
  found.getD (Decimal.ofScaled m e).strip

/-- The shortest decimal that reads back to the magnitude of `x`; zero if `x` is not finite. -/
def shortest : Number → Decimal
  | .finite _ m e _ => if m = 0 then ⟨0, 0⟩ else shortestOf m e
  | _ => ⟨0, 0⟩

end Number

end KLang
