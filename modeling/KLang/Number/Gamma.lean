import KLang.Number.Decimal
import KLang.Number.Power

/-!
# The gamma function

For positive arguments: factorials at small whole numbers, `1 / x` near zero, and between them an
approximation by a power, an exponential and a quotient of two polynomials of degree twelve,
computed in number arithmetic. Its result is defined by the order of these roundings, which need not be the
correct rounding of the exact value.
-/

namespace KLang.Number

/-- The number nearest to `digits / 10 ^ places`. -/
def decimalFraction (digits places : Nat) : Number := ofDecimal false ⟨digits, -places⟩

/-- What the approximation adds to its argument, up to a half. -/
def gammaShift : Number := decimalFraction 6024680040776729583740234375 27

/-- The numerator's coefficients, from the constant one up. -/
def gammaNumerator : List Number :=
  [decimalFraction 23531376880410759688572007674451636754734846804940 39,
    decimalFraction 42919803642649098768957899047001988850926355848959 39,
    decimalFraction 35711959237355668049440185451547166705960488635843 39,
    decimalFraction 17921034426037209699919755754458931112671403265390 39,
    decimalFraction 60395425863520280050642916443072979210699388420708 40,
    decimalFraction 14397204073117216736632230727949123939715485786372 40,
    decimalFraction 24887455786205415651146038641322942321632125127801 41,
    decimalFraction 31426415585400194380614231628318205362874684987640 42,
    decimalFraction 28763706289353724412254090516208496135991145378768 43,
    decimalFraction 18605626539522349504029498971604569928220784236328 44,
    decimalFraction 80716720023658162106380029022622506138218516325024 46,
    decimalFraction 21082427775157934587250973392071336271166969580291 47,
    decimalFraction 25066282746310002701649081771338373386264310793408 49]

/-- The denominator's coefficients, from the constant one up. -/
def gammaDenominator : List Number :=
  [0, 39916800, 120543840, 150917976, 105258076, 45995730, 13339535, 2637558, 357423, 32670, 1925,
    66, 1]

/-- The value at `x` of the polynomial with these coefficients, the constant one first. -/
def polynomial (coefficients : List Number) (x : Number) : Number :=
  coefficients.foldr (fun c sum => sum * x + c) 0

/-- The value at `1 / x` of the polynomial with these coefficients, the constant one last. -/
def reversedPolynomial (coefficients : List Number) (x : Number) : Number :=
  coefficients.foldl (fun sum c => sum / x + c) 0

/-- The quotient of the two polynomials; large arguments use descending powers. -/
def gammaQuotient (x : Number) : Number :=
  if x.lt 5 then polynomial gammaNumerator x / polynomial gammaDenominator x
  else reversedPolynomial gammaNumerator x / reversedPolynomial gammaDenominator x

/-- The approximation, whose power is split in two where it could overflow early. -/
def gammaApproximation (x : Number) : Number :=
  let half := decimalFraction 5 1
  let shifted := gammaShift - half
  let y := x + shifted
  let z := if shifted.lt x then y - x - shifted else y - shifted - x
  let z := z * gammaShift / y
  let r := gammaQuotient x / exp y
  let r := r + z * r
  if x.lt 140 then r * pow y (x - half)
  else
    let p := pow y (x / 2 - decimalFraction 25 2)
    r * p * p

/-- The gamma function of a positive number; infinite where it overflows. -/
def gamma (x : Number) : Number :=
  match x with
  | .finite .. =>
    if x.isInteger && x.le 23 then
      ofNat <| (List.range' 1 (x.truncate.toNat - 1)).foldl (· * ·) 1
    else if x.lt (decimalFraction 1 20) then 1 / x
    else if Number.lt 200 x then .infinite false
    else gammaApproximation x
  | _ => x

end KLang.Number
