/-!
# Numbers

A number is a value of the 64-bit binary floating-point format: a signed magnitude
`significand * 2 ^ exponent`, an infinity, or not a number.

* `Canonical m e`: the one normal form of each magnitude, so equal terms are equal numbers and the
  two zeros differ only in their sign.
* `Number.rank`: an integer that orders all numbers except `nan`; both zeros have rank `0`.
* `Number.truncate`, `floor`, `ceil`, `isInteger`: integer parts, exact at every magnitude.
-/

namespace KLang

/-- Powers of natural numbers are those of `Nat` itself. -/
instance (priority := 2000) natPow : Pow Nat Nat := instPowNat

/-- `m * 2 ^ e` is a magnitude of the format, written with its largest possible significand. -/
def Canonical (m : Nat) (e : Int) : Prop :=
  m < 2 ^ (53 : Nat) ∧ -1074 ≤ e ∧ e ≤ 971 ∧ (2 ^ (52 : Nat) ≤ m ∨ e = -1074)

instance (m : Nat) (e : Int) : Decidable (Canonical m e) :=
  inferInstanceAs (Decidable (_ ∧ _ ∧ _ ∧ (_ ∨ _)))

/-- A value of the 64-bit binary floating-point format. -/
inductive Number where
  | nan
  | infinite (negative : Bool)
  | finite (negative : Bool) (significand : Nat) (exponent : Int)
      (canonical : Canonical significand exponent)
  deriving DecidableEq

/-- Why a number has no integer part. -/
inductive NoIntegerPart where
  | infinity
  | nan
  deriving DecidableEq, Repr

/-- The text reported for a number without an integer part. -/
def NoIntegerPart.message : NoIntegerPart → String
  | .infinity => "cannot convert float infinity to integer"
  | .nan => "cannot convert float NaN to integer"

/-- `n` with a minus sign if `negative`. -/
def signed (negative : Bool) (n : Nat) : Int :=
  if negative then -(n : Int) else n

/-- `⌊m * 2 ^ e⌋`. -/
def scaledFloor (m : Nat) (e : Int) : Nat :=
  (m <<< e.toNat) >>> (-e).toNat

namespace Number

/-- The zero of the given sign. -/
def zero (negative : Bool) : Number :=
  .finite negative 0 (-1074) (by decide)

instance : Inhabited Number := ⟨zero false⟩

/-- The magnitude `m * 2 ^ e` with a sign; a pair outside the format has overflowed. -/
def pack (negative : Bool) (m : Nat) (e : Int) : Number :=
  if h : Canonical m e then .finite negative m e h else .infinite negative

/-! ## Classification and sign -/

/-- Whether the number is neither infinite nor `nan`. -/
def isFinite : Number → Bool
  | .finite .. => true
  | _ => false

/-- Whether the number is one of the two infinities. -/
def isInfinite : Number → Bool
  | .infinite _ => true
  | _ => false

/-- Whether the number is one of the two zeros. -/
def isZero : Number → Bool
  | .finite _ m _ _ => m == 0
  | _ => false

/-- The sign, which a zero has too; `nan` counts as positive. -/
def negative : Number → Bool
  | .nan => false
  | .infinite s => s
  | .finite s .. => s

/-- The number with the given sign. -/
def withSign (negative : Bool) : Number → Number
  | .nan => .nan
  | .infinite _ => .infinite negative
  | .finite _ m e h => .finite negative m e h

/-- The opposite number. -/
def neg (x : Number) : Number := x.withSign (!x.negative)

/-- The magnitude. -/
def abs (x : Number) : Number := x.withSign false

/-! ## Order -/

/-- The place of a number in the order of the format; `nan` has none. -/
def rank : Number → Option Int
  | .nan => none
  | .infinite s => some (signed s (2 ^ (64 : Nat)))
  | .finite s m e _ => some (signed s ((e + 1074).toNat * 2 ^ (53 : Nat) + m))

/-- The order of two numbers, if neither is `nan`; the two zeros are equal. -/
def compare? (x y : Number) : Option Ordering :=
  match x.rank, y.rank with
  | some a, some b => some (compare a b)
  | _, _ => none

/-- Whether `x` is smaller than `y`. -/
def lt (x y : Number) : Bool := x.compare? y == some .lt

/-- Whether `x` and `y` are the same quantity; `nan` differs from itself. -/
def eq (x y : Number) : Bool := x.compare? y == some .eq

/-- Whether `x` is smaller than or the same quantity as `y`. -/
def le (x y : Number) : Bool := x.lt y || x.eq y

/-! ## Integer parts -/

/-- The integer part, toward zero. -/
def toInt? : Number → Except NoIntegerPart Int
  | .nan => .error .nan
  | .infinite _ => .error .infinity
  | .finite s m e _ => .ok (signed s (scaledFloor m e))

/-- The integer part toward zero; `0` if there is none. -/
def truncate (x : Number) : Int :=
  match x.toInt? with
  | .ok i => i
  | .error _ => 0

/-- Whether the number is a whole number; an infinity is not. -/
def isInteger : Number → Bool
  | .finite _ m e _ => (scaledFloor m e) <<< (-e).toNat == m <<< e.toNat
  | _ => false

/-- The largest integer that is not above the number; `0` if the number is not finite. -/
def floor (x : Number) : Int :=
  if x.isInteger || !x.negative then x.truncate else x.truncate - 1

/-- The smallest integer that is not below the number; `0` if the number is not finite. -/
def ceil (x : Number) : Int :=
  if x.isInteger || x.negative then x.truncate else x.truncate + 1

end Number

end KLang
