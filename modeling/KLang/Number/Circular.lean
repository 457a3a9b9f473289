import KLang.Number.Enclosure

/-!
# Circular functions

The circular functions and their inverses, correctly rounded. An argument is first reduced by the
multiple of a quarter turn nearest to it, with as many places of `π` as its magnitude needs.
-/

namespace KLang

namespace Enclosure

variable {p : Nat}

/-- The number of quarter turns nearest to the magnitude `m * 2 ^ e`, and what is left over. -/
def quarterTurns (m : Nat) (e : Int) : Int × Enclosure p :=
  let q := p + (m.log2 + e).toNat + 8
  let x : Enclosure q := ofScaled m e
  let quarter : Enclosure q := pi.divNat 2
  let k := (2 * x.lo + quarter.lo) / (2 * quarter.lo)
  (k, (x - quarter.scale k).places p)

/-- The sine of a remainder after `k` quarter turns. -/
def sinTurned (k : Int) (r : Enclosure p) : Enclosure p :=
  if k % 4 = 0 then r.sinSeries
  else if k % 4 = 1 then r.cosSeries
  else if k % 4 = 2 then -r.sinSeries
  else -r.cosSeries

/-- The sine of the magnitude `m * 2 ^ e`. -/
def sinScaled (m : Nat) (e : Int) : Enclosure p :=
  let (k, r) := quarterTurns m e
  sinTurned k r

/-- The cosine of the magnitude `m * 2 ^ e`, the sine a quarter turn later. -/
def cosScaled (m : Nat) (e : Int) : Enclosure p :=
  let (k, r) := quarterTurns m e
  sinTurned (k + 1) r

/-- The tangent of the magnitude `m * 2 ^ e`. -/
def tanScaled (m : Nat) (e : Int) : Enclosure p :=
  let (k, r) := quarterTurns m e
  sinTurned k r / sinTurned (k + 1) r

/-- The arc tangent from the half angle: `tan (t / 2) = tan t / (1 + √(1 + tan² t))`. -/
def atanHalving : Nat → Enclosure p → Enclosure p
  | 0, z => z.atanSeries
  | n + 1, z => (atanHalving n (z / (1 + (z * z + 1).sqrt))).scale 2

/-- The angle between `0` and a quarter turn whose tangent is `num / den`, neither negative. -/
def angle (num den : Enclosure p) : Enclosure p :=
  if num.lo ≤ den.lo then atanHalving 3 (num / den)
  else pi.divNat 2 - atanHalving 3 (den / num)

/-- `√(1 - x²)`. -/
def coside (x : Enclosure p) : Enclosure p := (1 - x * x).sqrt

end Enclosure

namespace Number

/-- The sine; `nan` at the infinities. -/
def sin (x : Number) : Number :=
  match x with
  | .finite s m e _ =>
    if m = 0 then x
    else
      let value := resolve (basePlaces + depth m e) fun _ => Enclosure.sinScaled m e
      if s then value.neg else value
  | _ => .nan

/-- The cosine; `nan` at the infinities. -/
def cos (x : Number) : Number :=
  match x with
  | .finite _ m e _ =>
    if m = 0 then 1 else resolve basePlaces fun _ => Enclosure.cosScaled m e
  | _ => .nan

/-- The tangent; `nan` at the infinities. -/
def tan (x : Number) : Number :=
  match x with
  | .finite s m e _ =>
    if m = 0 then x
    else
      let value := resolve (basePlaces + depth m e) fun _ => Enclosure.tanScaled m e
      if s then value.neg else value
  | _ => .nan

/-- The arc tangent. -/
def atan (x : Number) : Number :=
  match x with
  | .nan => .nan
  | .infinite s => (resolve basePlaces fun _ => Enclosure.pi.divNat 2).withSign s
  | .finite s m e _ =>
    if m = 0 then x
    else
      let value := resolve (basePlaces + depth m e) fun _ =>
        Enclosure.angle (Enclosure.ofScaled m e) 1
      value.withSign s

/-- The arc sine; `nan` outside of `-1` to `1`. -/
def asin (x : Number) : Number :=
  match x with
  | .finite s m e _ =>
    if m = 0 then x
    else if Number.lt 1 x.abs then .nan
    else
      let value := resolve (basePlaces + depth m e) fun _ =>
        let z := Enclosure.ofScaled m e
        Enclosure.angle z z.coside
      value.withSign s
  | _ => .nan

/-- The arc cosine; `nan` outside of `-1` to `1`. -/
def acos (x : Number) : Number :=
  match x with
  | .finite s m e _ =>
    if Number.lt 1 x.abs then .nan
    else if x = 1 then 0
    else resolve basePlaces fun _ =>
      let z := Enclosure.ofScaled m e
      let a := Enclosure.angle z.coside z
      if s then Enclosure.pi - a else a
  | _ => .nan

end Number

end KLang
