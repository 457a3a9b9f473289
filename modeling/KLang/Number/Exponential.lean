import KLang.Number.Enclosure

/-!
# Exponential and hyperbolic functions

The exponential function, the logarithms, the hyperbolic functions and their inverses, correctly
rounded. Results at zeros and infinities are given directly, and arguments whose result overflows,
vanishes or saturates are settled before any series is summed.
-/

namespace KLang

namespace Enclosure

variable {p : Nat}

/--
The exponential: `exp x = 2 ^ k * exp (r / 2 ^ 8) ^ (2 ^ 8)` with `x = k * ln 2 + r`, where `k` is
the integer nearest to `x / ln 2`.
-/
def exp (x : Enclosure p) : Enclosure p :=
  let ln2 : Enclosure p := ln2
  let k := (2 * x.lo + ln2.lo) / (2 * ln2.lo)
  let r := x - ln2.scale k
  let root := expSeries (r.divNat 256)
  ((List.range 8).foldl (fun t _ => t * t) root).shift k

/--
The logarithm of `num / den`: `k * ln 2 + 2 atanh ((v - 1) / (v + 1))` with
`num / den = 2 ^ k * v` and `v` between `2/3` and `4/3`.
-/
def logRatio (num den : Nat) : Enclosure p :=
  let b := binade num den
  let k := if 4 * (den <<< b.toNat) < 3 * (num <<< (-b).toNat) then b + 1 else b
  let a := num <<< (-k).toNat
  let c := den <<< k.toNat
  ln2.scale k + (atanhSeries (ofRatio ((a : Int) - c) (a + c))).scale 2

/-- The logarithm of an interval of positive numbers. -/
def log (x : Enclosure p) : Enclosure p :=
  ⟨(logRatio (p := p) x.lo.toNat (1 <<< p)).lo, (logRatio (p := p) x.hi.toNat (1 <<< p)).hi⟩

/-- The logarithm of the magnitude `m * 2 ^ e`. -/
def logScaled (m : Nat) (e : Int) : Enclosure p :=
  logRatio (m <<< e.toNat) (1 <<< (-e).toNat)

end Enclosure

namespace Number

/-- Whether the magnitude `m * 2 ^ e` exceeds the natural number `k`. -/
def exceeds (m : Nat) (e : Int) (k : Nat) : Bool :=
  k <<< (-e).toNat < m <<< e.toNat

/-- The exponential function. -/
def exp (x : Number) : Number :=
  match x with
  | .nan => .nan
  | .infinite s => if s then 0 else x
  | .finite s m e _ =>
    if exceeds m e 746 then if s then 0 else .infinite false
    else
      let places := basePlaces + if s then 2 * scaledFloor m e else 0
      resolve places fun _ =>
        let z := Enclosure.ofScaled m e
        Enclosure.exp (if s then -z else z)

/-- A logarithm, from an enclosure of its value at positive magnitudes. -/
def logWith (value : (p m : Nat) → Int → Enclosure p) (x : Number) : Number :=
  match x with
  | .finite s m e _ =>
    if m = 0 then .infinite true
    else if s then .nan
    else if x = 1 then 0
    else resolve (basePlaces + 64) fun p => value p m e
  | .infinite false => x
  | _ => .nan

/-- The natural logarithm; `nan` for negative numbers. -/
def log : Number → Number := logWith fun _ m e => Enclosure.logScaled m e

/-- The binary logarithm. -/
def log2 : Number → Number := logWith fun _ m e => Enclosure.logScaled m e / Enclosure.ln2

/-- The decimal logarithm. -/
def log10 : Number → Number := logWith fun _ m e => Enclosure.logScaled m e / Enclosure.ln10

/-! ## Hyperbolic functions -/

/-- The hyperbolic sine; it overflows beyond `711`. -/
def sinh (x : Number) : Number :=
  match x with
  | .finite s m e _ =>
    if m = 0 then x
    else if exceeds m e 711 then .infinite s
    else
      let value := resolve (basePlaces + depth m e) fun _ =>
        let z := Enclosure.ofScaled m e
        (z.exp - (-z).exp).divNat 2
      value.withSign s
  | _ => x

/-- The hyperbolic cosine; it overflows beyond `711`. -/
def cosh (x : Number) : Number :=
  match x with
  | .finite _ m e _ =>
    if exceeds m e 711 then .infinite false
    else resolve basePlaces fun _ =>
      let z := Enclosure.ofScaled m e
      (z.exp + (-z).exp).divNat 2
  | _ => x.abs

/-- The hyperbolic tangent; it differs from `1` by less than half a unit beyond `22`. -/
def tanh (x : Number) : Number :=
  match x with
  | .nan => .nan
  | .infinite s => Number.withSign s 1
  | .finite s m e _ =>
    if m = 0 then x
    else if exceeds m e 22 then Number.withSign s 1
    else
      let value := resolve (basePlaces + depth m e) fun _ =>
        let u := (-(Enclosure.ofScaled m e).scale 2).exp
        (1 - u) / (1 + u)
      value.withSign s

/-- The inverse hyperbolic sine. -/
def asinh (x : Number) : Number :=
  match x with
  | .finite s m e _ =>
    if m = 0 then x
    else
      let value := resolve (basePlaces + depth m e) fun _ =>
        let z := Enclosure.ofScaled m e
        (z + (z * z + 1).sqrt).log
      value.withSign s
  | _ => x

/-- The inverse hyperbolic cosine; `nan` below `1`. -/
def acosh (x : Number) : Number :=
  match x with
  | .finite _ m e _ =>
    if x.lt 1 then .nan
    else if x = 1 then 0
    else resolve basePlaces fun _ =>
      let z := Enclosure.ofScaled m e
      (z + (z * z - 1).sqrt).log
  | .infinite false => x
  | _ => .nan

/-- The inverse hyperbolic tangent, infinite at `1` and `nan` beyond. -/
def atanh (x : Number) : Number :=
  match x with
  | .finite s m e _ =>
    if m = 0 then x
    else if x.abs = 1 then .infinite s
    else if Number.lt 1 x.abs then .nan
    else
      let num := m <<< e.toNat
      let den := 1 <<< (-e).toNat
      let value := resolve (basePlaces + depth m e) fun _ =>
        (Enclosure.logRatio (den + num) (den - num)).divNat 2
      value.withSign s
  | _ => .nan

end Number

end KLang
