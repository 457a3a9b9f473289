import KLang.Number.Rounding

/-!
# Arithmetic

Sum, difference, product and quotient are the exact results rounded once. The remainder is exact: it
keeps the sign of the dividend and is smaller than the divisor in magnitude.
-/

namespace KLang.Number

/-- The sum; a zero sum is negative only if both terms are. -/
def add : Number → Number → Number
  | .finite s m e _, .finite t n f _ =>
    let g := min e f
    let total := signed s (m <<< (e - g).toNat) + signed t (n <<< (f - g).toNat)
    if total = 0 then zero (s && t) else ofScaled (total < 0) total.natAbs g
  | .infinite s, .infinite t => if s = t then .infinite s else .nan
  | .infinite s, .finite .. => .infinite s
  | .finite .., .infinite t => .infinite t
  | _, _ => .nan

/-- The difference. -/
def sub (x y : Number) : Number := x.add y.neg

/-- The product. -/
def mul : Number → Number → Number
  | .finite s m e _, .finite t n f _ => ofScaled (s ^^ t) (m * n) (e + f)
  | .infinite s, .infinite t => .infinite (s ^^ t)
  | .infinite s, .finite t n _ _ => if n = 0 then .nan else .infinite (s ^^ t)
  | .finite s m _ _, .infinite t => if m = 0 then .nan else .infinite (s ^^ t)
  | _, _ => .nan

/-- The quotient; a nonzero number divided by a zero is infinite. -/
def div : Number → Number → Number
  | .finite s m e _, .finite t n f _ =>
    if n = 0 then
      if m = 0 then .nan else .infinite (s ^^ t)
    else
      let g := min e f
      ofRatio (s ^^ t) (m <<< (e - g).toNat) (n <<< (f - g).toNat)
  | .infinite s, .finite t .. => .infinite (s ^^ t)
  | .finite s .., .infinite t => zero (s ^^ t)
  | _, _ => .nan

/-- The exact remainder `x - y * trunc (x / y)`, with the sign of `x`. -/
def rem : Number → Number → Number
  | .finite s m e _, .finite _ n f _ =>
    if n = 0 then .nan
    else
      let g := min e f
      ofScaled s ((m <<< (e - g).toNat) % (n <<< (f - g).toNat)) g
  | .finite s m e h, .infinite _ => .finite s m e h
  | _, _ => .nan

instance : Add Number := ⟨add⟩
instance : Sub Number := ⟨sub⟩
instance : Mul Number := ⟨mul⟩
instance : Div Number := ⟨div⟩
instance : Mod Number := ⟨rem⟩
instance : Neg Number := ⟨neg⟩

end KLang.Number
