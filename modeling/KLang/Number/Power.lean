import KLang.Number.Arithmetic
import KLang.Number.Exponential

/-!
# Powers

`Number.pow x y` is the real power `x ^ y`, correctly rounded, with the usual conventions at zeros,
infinities and `nan`.

* `Number.exactPower?`: the powers that are exact quotients of integers and small enough to compute,
  among them every power that lies halfway between two numbers.
* `Number.powMagnitude`: every other power, as `exp (y * ln x)`.
-/

namespace KLang

namespace Number

/-- Whether the number is an odd integer. -/
def isOddInteger (x : Number) : Bool := x.isInteger && x.truncate % 2 != 0

/-- The number nearest to `2 ^ k`. -/
def powerOfTwo (k : Int) : Number :=
  if k < -1080 then 0 else if 1030 < k then .infinite false else ofScaled false 1 k

/-- `m * 2 ^ e` with an odd significand, for a positive `m`. -/
def oddPart (m : Nat) (e : Int) : Nat × Int :=
  if h : m ≠ 0 ∧ m % 2 = 0 then oddPart (m / 2) (e + 1) else (m, e)
termination_by m
decreasing_by omega

/-- The exact `2 ^ n`-th root of `m * 2 ^ e` with odd `m`, if it is again such a magnitude. -/
def exactRoot? : Nat → Nat → Int → Option (Nat × Int)
  | 0, m, e => some (m, e)
  | n + 1, m, e =>
    if m.sqrt * m.sqrt = m ∧ e % 2 = 0 then exactRoot? n m.sqrt (e / 2) else none

/-- The number nearest to `(m * 2 ^ e) ^ n` for odd `m`, unless the exact power is large. -/
def integerPower? (m : Nat) (e n : Int) : Option Number :=
  if m = 1 then some (powerOfTwo (e * n))
  else if n.natAbs ≤ 64 then
    let base := m ^ n.natAbs
    some <|
      if 0 ≤ n then ofRatio false (base <<< (e * n).toNat) (1 <<< (-(e * n)).toNat)
      else ofRatio false (1 <<< (e * n).toNat) (base <<< (-(e * n)).toNat)
  else none

/--
The number nearest to `(m * 2 ^ e) ^ y` with `y = ± n * 2 ^ f`, if that power is an integer power of
an exact root of the base and small enough to compute.
-/
def exactPower? (m : Nat) (e : Int) (negative : Bool) (n : Nat) (f : Int) : Option Number :=
  let (n, f) := oddPart n f
  let (m, e) := oddPart m e
  -- an odd significand below `2 ^ 53` or an exponent below `2 ^ 11` has fewer than twelve roots
  if f < -12 then none
  else
    match exactRoot? (-f).toNat m e with
    | none => none
    | some (root, e) => integerPower? root e (signed negative (n <<< f.toNat))

/-- The enclosure of `y * ln (m * 2 ^ e)` with `y = ± n * 2 ^ f`. -/
def logPower {p : Nat} (m : Nat) (e : Int) (negative : Bool) (n : Nat) (f : Int) : Enclosure p :=
  let z := Enclosure.logScaled m e * Enclosure.ofScaled n f
  if negative then -z else z

/-- The number nearest to `(m * 2 ^ e) ^ y` with `y = ± n * 2 ^ f`, both magnitudes positive. -/
def powMagnitude (m : Nat) (e : Int) (negative : Bool) (n : Nat) (f : Int) : Number :=
  match exactPower? m e negative n f with
  | some x => x
  | none =>
    let places := basePlaces + (n.log2 + f).toNat
    let z : Enclosure places := logPower m e negative n f
    if 710 * Enclosure.unit places ≤ z.lo then .infinite false
    else if z.hi ≤ -746 * Enclosure.unit places then 0
    else
      let below := ((-z.lo) >>> places).toNat
      resolve (places + 2 * below) fun _ => (logPower m e negative n f).exp

/-- The power, where one of the two is infinite and neither is `nan`, `0` or `1`. -/
def powInfinite (x y : Number) : Number :=
  if x.isInfinite then
    let odd := y.isOddInteger
    if y.negative then zero (x.negative && odd) else .infinite (x.negative && odd)
  else if x.abs = 1 then 1
  else if Number.lt 1 x.abs = y.negative then 0
  else .infinite false

/-- The real power `x ^ y`; `nan` for a fractional power of a negative number. -/
def pow (x y : Number) : Number :=
  if y.isZero || x = 1 then 1
  else
    match x, y with
    | .finite s m e _, .finite t n f _ =>
      let odd := y.isOddInteger
      if m = 0 then if t then .infinite (s && odd) else zero (s && odd)
      else if s && !y.isInteger then .nan
      else (powMagnitude m e t n f).withSign (s && odd)
    | .nan, _ => .nan
    | _, .nan => .nan
    | x, y => powInfinite x y

end Number

end KLang
