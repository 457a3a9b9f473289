import KLang.Builtin.Basic
import KLang.Builtin.Plotting
import KLang.Number.Gamma
import KLang.Number.Root

/-!
# The module `math`

Properties of numbers, rounding, roots, factorials and their relatives, logarithms and plots.
-/

namespace KLang

/-! ## Properties of numbers -/

/-- Whether `n` has a divisor between `i` and its square root. -/
def hasDivisorFrom (n i : Nat) : Bool :=
  if _h : i * i ≤ n ∧ 0 < i then n % i == 0 || hasDivisorFrom n (i + 1) else false
termination_by n + 1 - i
decreasing_by
  have := Nat.le_mul_of_pos_left i _h.2
  omega

namespace Number

/-- Whether the number is an even integer. -/
def isEvenInteger (x : Number) : Bool := x.isInteger && x.truncate % 2 == 0

/-- Whether the digits of the integer part read the same in both directions. -/
def isPalindrome (x : Number) : Bool :=
  let ds := digitChars x.truncate.natAbs
  x.isFinite && ds == ds.reverse

/-- Whether the number is a prime number, by trial division. -/
def isPrime (x : Number) : Bool :=
  x.isInteger && 2 ≤ x.truncate && !hasDivisorFrom x.truncate.toNat 2

/-! ## Rounding -/

/-- The largest integer not above the number, as a number; an infinity or `nan` is kept. -/
def roundDown (x : Number) : Number := if x.isFinite then ofInt x.floor else x

/-- The smallest integer not below the number, as a number; an infinity or `nan` is kept. -/
def roundUp (x : Number) : Number := if x.isFinite then ofInt x.ceil else x

/-- The nearest integer, and the lower one of two that are equally near. -/
def roundNearest (x : Number) : Number :=
  if (x.roundUp - x).lt (x - x.roundDown) then x.roundUp else x.roundDown

/-- The reciprocal, with `0` for a zero. -/
def inverse (x : Number) : Number := if x.isZero then 0 else 1 / x

/-! ## Factorials and Fibonacci numbers -/

/--
The product of the numbers from `2` to `n`, rounded at each step. It is infinite from `171` on, so
no more than two hundred factors are multiplied.
-/
def factorial (n : Nat) : Number :=
  (List.range' 2 (min n 200 - 1)).foldl (fun product i => product * ofNat i) 1

/-- The Fibonacci numbers with index `n` and `n + 1`. -/
def fibonacciPair : Nat → Nat × Nat
  | 0 => (0, 1)
  | n + 1 =>
    let (a, b) := fibonacciPair n
    (b, a + b)

/--
The Fibonacci number of the integer part. Beyond `1476` all of them exceed the largest number, and
up to `1` the argument is its own value.
-/
def fibonacci (x : Number) : Except Refusal Number :=
  if x.lt 0 then .error (.value "fibonacci not defined for negative numbers")
  else if x.le 1 then .ok x
  else if Number.lt 1476 x then .ok (.infinite false)
  else
    match x.toInt? with
    | .ok i => .ok (ofNat (fibonacciPair i.toNat).1)
    | .error why => .error (.value why.message)

/-- The logarithm to a base. -/
def logBase (x base : Number) : Except Refusal Number :=
  if x.le 0 then .error (.value "log not defined for negative numbers or zero")
  else if base.le 0 || base.eq 1 then
    .error (.value "log base must be positive and not equal to 1")
  else .ok (x.log / base.log)

end Number

/-! ## The module -/

/-- The logarithm to a base, a function of two numbers. -/
def Builtin.logBase : Builtin where
  signature := ⟨"log", [.double, .double], .double⟩
  invoke _ arguments :=
    match arguments with
    | [.double x, .double base] => (fun y => .reply (.number y)) <$> x.logBase base
    | _ => .ok default

/-- The ratio of a circle's circumference to its diameter. -/
def Number.pi : Number := decimalFraction 3141592653589793 15

/-- The functions and constants of the module `math`. -/
def Library.math : Library :=
  .ofLists "math"
    [.property "is_positive" fun x => Number.lt 0 x,
      .property "is_negative" fun x => x.lt 0,
      .property "is_zero" Number.isZero,
      .property "is_integer" Number.isInteger,
      .property "is_float" fun x => !x.isInteger,
      .property "is_even" Number.isEvenInteger,
      .property "is_odd" Number.isOddInteger,
      .property "is_palindrome" Number.isPalindrome,
      .property "is_prime" Number.isPrime,
      .function "floor" Number.roundDown,
      .function "ceil" Number.roundUp,
      .function "round" Number.roundNearest,
      .guardedFunction "sqrt" (·.lt 0) "square root of negative number" Number.sqrt,
      .function "cbrt" Number.cbrt,
      .function "abs" Number.abs,
      .function "inverse" Number.inverse,
      .guardedFunction "factorial" (fun x => x.lt 0 || !x.isInteger)
        "factorial not defined for negative integers or non-integers"
        fun x => .factorial x.truncate.toNat,
      .guardedFunction "gamma" (·.le 0) "gamma not defined for negative numbers or zero"
        Number.gamma,
      .ofNumber "fibonacci" .double Number.fibonacci,
      .guardedFunction "ln" (·.le 0) "ln not defined for negative numbers or zero" Number.log,
      .guardedFunction "log10" (·.le 0) "log10 not defined for negative numbers or zero"
        Number.log10,
      .guardedFunction "log2" (·.le 0) "log2 not defined for negative numbers or zero" Number.log2,
      .logBase,
      .plotFunction,
      .plotFunctions,
      .plotSurface,
      .plotFile]
    [("pi", .pi),
      ("e", Number.decimalFraction 2718281828459045 15),
      ("phi", Number.decimalFraction 1618033988749894848 18),
      ("silver_ratio", Number.decimalFraction 241421356237309504880 20),
      ("supergolden_ratio", Number.decimalFraction 146557123187676802665 20),
      ("posinf", .infinite false),
      ("neginf", .infinite true)]

end KLang
