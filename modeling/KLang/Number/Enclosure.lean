import KLang.Number.Rounding

/-!
# Enclosures

The elementary functions have no exact values, so they are computed as intervals between two
fixed-point numbers with `p` places after the binary point, every step rounded outwards. When both
ends of the interval round to the same number, that number is the correctly rounded result; when
they do not, the computation is done again with more places.

* `Enclosure p`: the interval `[lo / 2 ^ p, hi / 2 ^ p]`, with outward arithmetic.
* `Enclosure.series`: sums whose terms shrink by at least half at each step.
* `Enclosure.round?` and `Number.resolve`: from intervals to the rounded result.
-/

namespace KLang

/-- The interval `[lo / 2 ^ p, hi / 2 ^ p]`. -/
structure Enclosure (p : Nat) where
  lo : Int
  hi : Int
  deriving Repr

namespace Enclosure

variable {p : Nat}

/-! ## Outward arithmetic -/

/-- `⌈i / 2 ^ n⌉`. -/
def shiftUp (i : Int) (n : Nat) : Int := -((-i) >>> n)

/-- `⌈i / d⌉` for a positive `d`. -/
def divUp (i d : Int) : Int := -((-i) / d)

/-- The fixed-point form of `1`. -/
def unit (p : Nat) : Int := (1 <<< p : Nat)

/-- An integer. -/
def ofInt (i : Int) : Enclosure p := ⟨i * unit p, i * unit p⟩

/-- A quotient of an integer and a positive natural number. -/
def ofRatio (num : Int) (den : Nat) : Enclosure p :=
  ⟨num * unit p / den, divUp (num * unit p) den⟩

/-- The magnitude `m * 2 ^ e`. -/
def ofScaled (m : Nat) (e : Int) : Enclosure p :=
  ofRatio (m <<< e.toNat : Nat) (1 <<< (-e).toNat)

/-- An interval that determines nothing: its ends lie beyond the format on both sides. -/
def everything : Enclosure p := ⟨-unit (p + 1100), unit (p + 1100)⟩

/-- The sum. -/
def add (x y : Enclosure p) : Enclosure p := ⟨x.lo + y.lo, x.hi + y.hi⟩

/-- The opposite. -/
def neg (x : Enclosure p) : Enclosure p := ⟨-x.hi, -x.lo⟩

/-- The difference. -/
def sub (x y : Enclosure p) : Enclosure p := ⟨x.lo - y.hi, x.hi - y.lo⟩

/-- The product. -/
def mul (x y : Enclosure p) : Enclosure p :=
  let a := x.lo * y.lo
  let b := x.lo * y.hi
  let c := x.hi * y.lo
  let d := x.hi * y.hi
  ⟨min (min a b) (min c d) >>> p, shiftUp (max (max a b) (max c d)) p⟩

/-- The product with an integer. -/
def scale (k : Int) (x : Enclosure p) : Enclosure p :=
  if 0 ≤ k then ⟨k * x.lo, k * x.hi⟩ else ⟨k * x.hi, k * x.lo⟩

/-- The quotient by a positive natural number. -/
def divNat (x : Enclosure p) (k : Nat) : Enclosure p := ⟨x.lo / k, divUp x.hi k⟩

/-- The product with `2 ^ k`. -/
def shift (x : Enclosure p) (k : Int) : Enclosure p :=
  ⟨(x.lo * unit k.toNat) >>> (-k).toNat, shiftUp (x.hi * unit k.toNat) (-k).toNat⟩

/-- The quotient by an interval of positive numbers. -/
def divPos (x y : Enclosure p) : Enclosure p :=
  ⟨x.lo * unit p / (if 0 ≤ x.lo then y.hi else y.lo),
    divUp (x.hi * unit p) (if 0 ≤ x.hi then y.lo else y.hi)⟩

/-- The quotient, which is undetermined if the divisor may be zero. -/
def div (x y : Enclosure p) : Enclosure p :=
  if 0 < y.lo then x.divPos y
  else if y.hi < 0 then x.neg.divPos y.neg
  else everything

/-- The square root of the part of the interval that is not negative. -/
def sqrt (x : Enclosure p) : Enclosure p :=
  let hi := (x.hi * unit p).toNat
  let root := hi.sqrt
  ⟨(x.lo * unit p).toNat.sqrt, if root * root = hi then root else root + 1⟩

/-- The same interval with another number of places. -/
def places (q : Nat) (x : Enclosure p) : Enclosure q :=
  ⟨(x.lo * unit (q - p)) >>> (p - q), shiftUp (x.hi * unit (q - p)) (p - q)⟩

/-- The largest magnitude in the interval, in units of the last place. -/
def magnitude (x : Enclosure p) : Nat := max x.lo.natAbs x.hi.natAbs

/-- The interval with both ends moved outwards by `k` units of the last place. -/
def widen (x : Enclosure p) (k : Nat) : Enclosure p := ⟨x.lo - k, x.hi + k⟩

instance : Add (Enclosure p) := ⟨add⟩
instance : Sub (Enclosure p) := ⟨sub⟩
instance : Mul (Enclosure p) := ⟨mul⟩
instance : Div (Enclosure p) := ⟨div⟩
instance : Neg (Enclosure p) := ⟨neg⟩
instance (n : Nat) : OfNat (Enclosure p) n := ⟨ofInt n⟩

/-! ## Series -/

/--
`sum` plus the parts of `term`, `next k term`, … until a term is at most one unit of the last place.
Each term is at most half of the one before it, so the rest is at most twice the last term.
-/
def series (next part : Nat → Enclosure p → Enclosure p) :
    Nat → Nat → Enclosure p → Enclosure p → Enclosure p
  | 0, _, term, sum => sum.widen (2 * term.magnitude)
  | fuel + 1, k, term, sum =>
    if term.magnitude ≤ 1 then sum.widen 2
    else series next part fuel (k + 1) (next k term) (sum + part k term)

/-- The sum of the series that begins with `first`. -/
def sumFrom (first : Enclosure p) (next part : Nat → Enclosure p → Enclosure p) : Enclosure p :=
  series next part (p + 8) 0 first 0

/-- `atanh z = z + z³/3 + z⁵/5 + …`, for `z` between `-1/2` and `1/2`. -/
def atanhSeries (z : Enclosure p) : Enclosure p :=
  let square := z * z
  sumFrom z (fun _ t => t * square) fun k t => t.divNat (2 * k + 1)

/-- `atan z = z - z³/3 + z⁵/5 - …`, for `z` between `-1/2` and `1/2`. -/
def atanSeries (z : Enclosure p) : Enclosure p :=
  let square := z * z
  sumFrom z (fun _ t => -(t * square)) fun k t => t.divNat (2 * k + 1)

/-- `exp z = 1 + z + z²/2 + z³/6 + …`, for `z` between `-1/2` and `1/2`. -/
def expSeries (z : Enclosure p) : Enclosure p :=
  sumFrom 1 (fun k t => (t * z).divNat (k + 1)) fun _ t => t

/-- `sin z = z - z³/6 + z⁵/120 - …`, for `z` between `-1` and `1`. -/
def sinSeries (z : Enclosure p) : Enclosure p :=
  let square := z * z
  sumFrom z (fun k t => -(t * square).divNat ((2 * k + 2) * (2 * k + 3))) fun _ t => t

/-- `cos z = 1 - z²/2 + z⁴/24 - …`, for `z` between `-1` and `1`. -/
def cosSeries (z : Enclosure p) : Enclosure p :=
  let square := z * z
  sumFrom 1 (fun k t => -(t * square).divNat ((2 * k + 1) * (2 * k + 2))) fun _ t => t

/-! ## Constants -/

/-- The places to which the constants are kept; enough to reduce every argument of the format. -/
def storedPlaces : Nat := 1400

/-- `ln 2 = 2 atanh (1/3)`. -/
def ln2At (p : Nat) : Enclosure p := (atanhSeries (ofRatio 1 3)).scale 2

/-- `π = 16 atan (1/5) - 4 atan (1/239)`. -/
def piAt (p : Nat) : Enclosure p :=
  (atanSeries (ofRatio 1 5)).scale 16 - (atanSeries (ofRatio 1 239)).scale 4

/-- `ln 2`, computed once. -/
def storedLn2 : Enclosure storedPlaces := ln2At storedPlaces

/-- `π`, computed once. -/
def storedPi : Enclosure storedPlaces := piAt storedPlaces

/-- `ln 2`. -/
def ln2 : Enclosure p := if p ≤ storedPlaces then storedLn2.places p else ln2At p

/-- `π`. -/
def pi : Enclosure p := if p ≤ storedPlaces then storedPi.places p else piAt p

/-- `ln 10 = 3 ln 2 + 2 atanh (1/9)`. -/
def ln10 : Enclosure p := ln2.scale 3 + (atanhSeries (ofRatio 1 9)).scale 2

/-! ## Rounding -/

/-- The number that every point of the interval rounds to, if there is one. -/
def round? (x : Enclosure p) : Option Number :=
  let lo := Number.ofScaled (x.lo < 0) x.lo.natAbs (-p)
  let hi := Number.ofScaled (x.hi < 0) x.hi.natAbs (-p)
  if lo = hi then some lo else none

end Enclosure

namespace Number

/--
The number that the enclosures of a value determine, tried with `places` places after the point and
then with twice as many, six times over. A value that is not halfway between two numbers is
determined by some number of places.
-/
def resolve (places : Nat) (enclosure : (p : Nat) → Enclosure p) : Number :=
  let found := (List.range 7).findSome? fun i => (enclosure (places * 2 ^ i)).round?
  found.getD (ofScaled (0 > (enclosure places).lo) (enclosure places).lo.natAbs (-places))

/-- Places that leave seventy-five bits and more below the last one of a result of order `1`. -/
def basePlaces : Nat := 128

/-- The place of the first bit of `m * 2 ^ e`, counted downwards from the point; zero above it. -/
def depth (m : Nat) (e : Int) : Nat := (-(m.log2 + e)).toNat

end Number

end KLang
