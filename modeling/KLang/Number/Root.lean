import KLang.Number.Enclosure

/-!
# Roots

Square and cube roots, correctly rounded. A root of a number is never halfway between two numbers,
so the enclosures determine it.
-/

namespace KLang

/-- The step of the integer cube root below an upper bound `x` of it. -/
def cubeRootFrom (n x : Nat) : Nat :=
  let y := (2 * x + n / (x * x)) / 3
  if _h : y < x then cubeRootFrom n y else x
termination_by x

/-- `⌊∛n⌋`. -/
def cubeRoot (n : Nat) : Nat :=
  if n = 0 then 0 else cubeRootFrom n (1 <<< (n.log2 / 3 + 1))

/-- The cube root of an interval of numbers that are not negative. -/
def Enclosure.cbrt {p : Nat} (x : Enclosure p) : Enclosure p :=
  let hi := (x.hi * Enclosure.unit (2 * p)).toNat
  let root := cubeRoot hi
  ⟨cubeRoot (x.lo * Enclosure.unit (2 * p)).toNat,
    if root * root * root = hi then root else root + 1⟩

namespace Number

/-- The square root; `nan` for a negative number, and a zero keeps its sign. -/
def sqrt (x : Number) : Number :=
  match x with
  | .finite s m e _ =>
    if m = 0 then x
    else if s then .nan
    else resolve (basePlaces + depth m e) fun _ => (Enclosure.ofScaled m e).sqrt
  | .infinite false => x
  | _ => .nan

/-- The cube root, with the sign of the number. -/
def cbrt (x : Number) : Number :=
  match x with
  | .finite s m e _ =>
    if m = 0 then x
    else (resolve (basePlaces + depth m e) fun _ => (Enclosure.ofScaled m e).cbrt).withSign s
  | _ => x

end Number

end KLang
