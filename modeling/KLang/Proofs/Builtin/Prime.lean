import KLang.Builtin.Math
import KLang.Proofs.Builtin.Dispatch
import KLang.Proofs.Number.Remainder
import Mathlib.Data.Nat.Prime.Basic

/-!
# Prime numbers are recognized

Trial division looks for a divisor from `2` up to and including the square root. A number that is not
prime has one there, the root itself for the square of a prime.

* `hasDivisorFrom_iff`: what the search finds.
* `prime_iff_hasDivisorFrom`: natural numbers that have no divisor there.
* `Number.IsPrimeNumber`: numbers that are prime, among all that a program can have.
* `primes_are_recognized`: the value of the builtin function, for every number.
-/

namespace KLang

/-- The search finds a divisor exactly if there is one between its start and the square root. -/
theorem hasDivisorFrom_iff {n i : ℕ} (hi : 0 < i) :
    hasDivisorFrom n i = true ↔ ∃ d, i ≤ d ∧ d * d ≤ n ∧ d ∣ n := by
  fun_induction hasDivisorFrom n i with
  | case1 i h ih =>
    rw [Bool.or_eq_true, ih (Nat.succ_pos i), beq_iff_eq, ← Nat.dvd_iff_mod_eq_zero]
    constructor
    · rintro (hdvd | ⟨d, hid, hd, hdvd⟩)
      · exact ⟨i, le_rfl, h.1, hdvd⟩
      · exact ⟨d, Nat.le_of_succ_le hid, hd, hdvd⟩
    · rintro ⟨d, hid, hd, hdvd⟩
      obtain rfl | hlt := Nat.eq_or_lt_of_le hid
      · exact .inl hdvd
      · exact .inr ⟨d, hlt, hd, hdvd⟩
  | case2 i h =>
    refine iff_of_false Bool.false_ne_true ?_
    rintro ⟨d, hid, hd, -⟩
    exact h ⟨(Nat.mul_le_mul hid hid).trans hd, hi⟩

/-- A number from `2` on is prime exactly if the search finds no divisor. -/
theorem prime_iff_hasDivisorFrom {n : ℕ} :
    n.Prime ↔ 2 ≤ n ∧ hasDivisorFrom n 2 = false := by
  rw [Nat.prime_def_le_sqrt, ← Bool.not_eq_true, hasDivisorFrom_iff two_pos]
  refine and_congr_right fun _ => ⟨fun h => ?_, fun h d hd hsqrt hdvd => ?_⟩
  · rintro ⟨d, hd, hle, hdvd⟩
    exact h d hd (Nat.le_sqrt.mpr hle) hdvd
  · exact h ⟨d, hd, Nat.le_sqrt.mp hsqrt, hdvd⟩

namespace Number

/-- The number is finite and a prime number. -/
def IsPrimeNumber (x : Number) : Prop := x.isFinite = true ∧ ∃ p : ℕ, p.Prime ∧ x.toRat = p

variable {x : Number}

theorem isPrime_iff : x.isPrime = true ↔ x.IsPrimeNumber := by
  rw [isPrime, Bool.and_eq_true, Bool.and_eq_true, decide_eq_true_iff, Bool.not_eq_true']
  constructor
  · rintro ⟨⟨hinteger, htwo⟩, hsearch⟩
    have hx := isFinite_of_isInteger hinteger
    obtain ⟨k, hk⟩ := (isInteger_iff hx).mp hinteger
    rw [truncate_of_isFinite hx, hk, truncation_intCast] at htwo hsearch
    obtain ⟨p, rfl⟩ := Int.eq_ofNat_of_zero_le (zero_le_two.trans htwo)
    exact ⟨hx, p, prime_iff_hasDivisorFrom.mpr ⟨by exact_mod_cast htwo, hsearch⟩, hk⟩
  · rintro ⟨hx, p, hp, hvalue⟩
    obtain ⟨htwo, hsearch⟩ := prime_iff_hasDivisorFrom.mp hp
    rw [truncate_of_isFinite hx, hvalue, ← Int.cast_natCast, truncation_intCast]
    exact ⟨⟨(isInteger_iff hx).mpr ⟨p, hvalue⟩, by exact_mod_cast htwo⟩, hsearch⟩

end Number

/-- **Prime numbers are recognized.** The module has a builtin function that gives, for every number,
`1` if the number is finite and a prime number, and `0` otherwise. -/
theorem primes_are_recognized (world : World) (l : Option Location) (x : Number) :
    ∃ b r, Library.math.builtins.get? "is_prime" = some b ∧
      callBuiltin world l b [.number x] = pure (.number r) ∧
      (r = 1 ↔ x.IsPrimeNumber) ∧ (r = 0 ↔ ¬x.IsPrimeNumber) := by
  refine ⟨_, _, rfl, callBuiltin_property world l "is_prime" Number.isPrime x, ?_⟩
  rw [← Number.isPrime_iff]
  cases x.isPrime <;> decide

end KLang
