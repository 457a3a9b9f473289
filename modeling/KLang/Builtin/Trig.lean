import KLang.Builtin.Math
import KLang.Number.Circular

/-!
# The module `trig`

Circular and hyperbolic functions, their reciprocals and inverses, and conversions of angles.
-/

namespace KLang

namespace Number

/-- The reciprocal, with an infinity of the same sign for a zero. -/
def reciprocal (x : Number) : Number := if x.isZero then .infinite x.negative else 1 / x

end Number

namespace Builtin

/-- A refusal of the arguments outside of `domain`. -/
def outsideOf (name domain : String) : String := s!"{name} argument must be in the range {domain}"

/-- A function that is defined on part of the numbers only. -/
def onDomain (name domain : String) (outside : Number → Bool) (f : Number → Number) : Builtin :=
  guardedFunction name outside (outsideOf name domain) f

/-- The value `finish (f x)`, refused where `f` overflows at a finite number. -/
def unlessOverflow (f finish : Number → Number) (x : Number) : Except Refusal Number :=
  if x.isFinite && (f x).isInfinite then .error (.arithmetic "math range error")
  else .ok (finish (f x))

/-- Whether a number lies strictly between `-1` and `1`. -/
def insideUnit (x : Number) : Bool := Number.lt (-1) x && x.lt 1

/-- The hyperbolic cosecant, which has no value at zero. -/
def csch : Builtin :=
  ofNumber "csch" .double fun x =>
    if x.isZero then .error (.value (outsideOf "csch" "(-inf, 0) U (0, +inf)"))
    else unlessOverflow Number.sinh (1 / ·) x

end Builtin

open Builtin in
/-- The functions and constants of the module `trig`. -/
def Library.trig : Library :=
  .ofLists "trig"
    [.function "sin" Number.sin,
      .function "cos" Number.cos,
      .function "tan" Number.tan,
      .function "cot" fun x => x.tan.reciprocal,
      .function "sec" fun x => x.cos.reciprocal,
      .function "csc" fun x => x.sin.reciprocal,
      .onDomain "arcsin" "[-1, 1]" (fun x => x.lt (-1) || Number.lt 1 x) Number.asin,
      .onDomain "arccos" "[-1, 1]" (fun x => x.lt (-1) || Number.lt 1 x) Number.acos,
      .function "arctan" Number.atan,
      .function "arccot" fun x => x.reciprocal.atan,
      .onDomain "arcsec" "(-inf, -1] U [1, +inf)" insideUnit fun x => (1 / x).acos,
      .onDomain "arccsc" "(-inf, -1] U [1, +inf)" insideUnit fun x => (1 / x).asin,
      .ofNumber "sinh" .double (unlessOverflow Number.sinh id),
      .ofNumber "cosh" .double (unlessOverflow Number.cosh id),
      .function "tanh" Number.tanh,
      .onDomain "coth" "(-inf, 0) U (0, +inf)" Number.isZero fun x => 1 / x.tanh,
      .ofNumber "sech" .double (unlessOverflow Number.cosh (1 / ·)),
      .csch,
      .function "arcsinh" Number.asinh,
      .onDomain "arccosh" "[1, +inf)" (·.lt 1) Number.acosh,
      .onDomain "arctanh" "(-1, 1)" (fun x => x.le (-1) || Number.le 1 x) Number.atanh,
      .onDomain "arccoth" "(-inf, -1) U (1, +inf)" (fun x => Number.le (-1) x && x.le 1)
        fun x => (1 / x).atanh,
      .onDomain "arcsech" "(0, 1]" (fun x => x.le 0 || Number.lt 1 x) fun x => (1 / x).acosh,
      .onDomain "arccsch" "(-inf, -1] U [1, +inf)" insideUnit fun x => (1 / x).asinh,
      .function "degrees_to_radians" fun x => x * .pi / 180,
      .function "radians_to_degrees" fun x => x * 180 / .pi]
    [("pi", .pi)]

/-- The modules that programs can import. -/
def Library.all : List Library := [.math, .trig]

/-- The module of the given name. -/
def Library.find? (name : String) : Option Library := Library.all.find? (·.name == name)

end KLang
